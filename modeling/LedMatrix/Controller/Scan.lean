import LedMatrix.Controller

/-! # Scanning

One refresh tick sends one row and lights it; as many ticks as there are rows
show the whole bank. A tick is five steps, one for each phase, and may be cut
between any two of them. Commands are carried out at the first step, and the
waiting bank is adopted there when the first row comes up. -/

namespace LedMatrix

variable {leds rows cols : Nat}

/-- Takes one command after the other and tells the panel what it asks for, until none is
left. -/
-- Semireducible, for a step on given values is still to be computed by `decide`.
@[semireducible] def Mailbox.carryOut (box : Mailbox rows cols) :
    Mailbox rows cols × List (Instruction cols) :=
  match popped : box.pop? with
  | none => (box, [])
  | some (command, rest) =>
    have := length_lt_of_pop? popped
    let later := carryOut rest
    (later.1, command.instruction :: later.2)
termination_by box.queue.commands.length

/-- All that is queued is carried out in order, and nothing else in the mailbox changes. -/
@[simp] theorem Mailbox.carryOut_eq (box : Mailbox rows cols) :
    box.carryOut = (box.drained, box.queue.commands.map Command.instruction) := by
  rw [carryOut]
  split
  · rename_i popped
    have empty : box.queue = .empty := pop?_eq_none_iff.mp popped
    have same : box.drained = box := by rw [drained, ← empty]
    rw [same, empty]
    rfl
  · rename_i command rest popped
    have := length_lt_of_pop? popped
    obtain ⟨first, same⟩ := of_pop? popped
    simp only [carryOut_eq rest, first, same, List.map_cons]
termination_by box.queue.commands.length

namespace Controller

/-- At the first row takes the waiting bank. -/
def beginTick (c : Controller leds rows cols) : Controller leds rows cols :=
  if c.scanner.row.val = 0 then
    { c with
      mailbox := (c.mailbox.adopt c.scanner.active).1
      scanner :=
        { c.scanner with active := (c.mailbox.adopt c.scanner.active).2, phase := .transfer } }
  else { c with scanner := { c.scanner with phase := .transfer } }

def enter (c : Controller leds rows cols) (phase : Phase) : Controller leds rows cols :=
  { c with scanner := { c.scanner with phase } }

/-- Moves on to the next row; after the last one the scan is complete. -/
def endTick (c : Controller leds rows cols) : Controller leds rows cols :=
  { c with
    mailbox := if c.scanner.nextRow.val = 0 then c.mailbox.completeScan else c.mailbox
    scanner := { c.scanner with row := c.scanner.nextRow, phase := .idle } }

/-- Runs the current phase. -/
def step (c : Controller leds rows cols) : Controller leds rows cols × List (Instruction cols) :=
  match c.phase with
  | .idle => ({ c with mailbox := c.mailbox.carryOut.1 }.beginTick, c.mailbox.carryOut.2)
  | .transfer => (c.enter .latch, [.rowsOff rows, .shift c.scanner.current])
  | .latch => (c.enter .reset, [.latchAll])
  | .reset => (c.enter .select, [.resetCounter])
  | .select => (c.endTick, [.rowOn c.scanner.line])

/-- A tick begins by carrying out all that is queued. -/
theorem step_of_idle {c : Controller leds rows cols} (h : c.phase = .idle) :
    c.step =
      ({ c with mailbox := c.mailbox.drained }.beginTick,
        c.mailbox.queue.commands.map Command.instruction) := by
  rw [step, h, Mailbox.carryOut_eq]

theorem phase_step (c : Controller leds rows cols) : c.step.1.phase = c.phase.next := by
  unfold step
  split <;> rename_i h <;> rw [h]
  · unfold beginTick
    dsimp only
    split <;> rfl
  all_goals rfl

/-- Runs a given number of phases. -/
def steps : Nat → Controller leds rows cols → Controller leds rows cols × List (Instruction cols)
  | 0, c => (c, [])
  | n + 1, c =>
    let rest := steps n c.step.1
    (rest.1, c.step.2 ++ rest.2)

/-- A step that does not end the tick leaves one phase fewer. -/
theorem left_step_lt {c : Controller leds rows cols} (h : c.step.1.phase ≠ .idle) :
    c.step.1.phase.left < c.phase.left := by
  rw [phase_step] at h ⊢
  rw [Phase.left_next fun hs => h (Phase.next_eq_idle_iff.mpr hs)]
  exact Nat.lt_succ_self _

/-- Runs phases until the tick has ended. A tick that was cut is finished. -/
def tick (c : Controller leds rows cols) : Controller leds rows cols × List (Instruction cols) :=
  if c.step.1.phase = .idle then c.step
  else
    let rest := tick c.step.1
    (rest.1, c.step.2 ++ rest.2)
termination_by c.phase.left
decreasing_by
  rename_i h
  exact left_step_lt h

/-- A tick runs the phases that are left. -/
theorem tick_eq_steps (c : Controller leds rows cols) : c.tick = c.steps c.phase.left := by
  unfold tick
  split <;> rename_i h
  · have hp : c.phase = .select := Phase.next_eq_idle_iff.mp (c.phase_step ▸ h)
    simp [hp, Phase.left, steps]
  · have hp : c.phase ≠ .select := fun hs =>
      h (c.phase_step ▸ Phase.next_eq_idle_iff.mpr hs)
    rw [tick_eq_steps c.step.1, phase_step, Phase.left_next hp]
    rfl
termination_by c.phase.left
decreasing_by
  rename_i h
  exact left_step_lt h

end Controller

end LedMatrix

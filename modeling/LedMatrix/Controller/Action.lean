import LedMatrix.Controller.Scan

/-! # What a controller is asked to do

The application calls; the refresh timer steps and ticks; and the lines can be
driven past the controller. A call sends no signal. A refused action changes
nothing. -/

namespace LedMatrix

/-- What the application may ask. -/
inductive Call where
  | setColor (index : Nat) (color : Color)
  | fill (color : Color)
  | flush
  | setGain (gain : UInt8)
  | setOutput (on : Bool)
  deriving DecidableEq, Repr

inductive Action where
  | call (call : Call)
  | step
  | tick
  | drive (line : Line) (level : Level)
  | present (word : Word)
  deriving DecidableEq, Repr

namespace Controller

variable {leds rows cols : Nat}

/-- Draws the frame into the back bank and publishes it. -/
def flush (c : Controller leds rows cols) : Controller leds rows cols :=
  let drawn := c.canvas.back.encode c.canvas.frame c.canvas.layout c.canvas.curve
  { c with
    canvas := { c.canvas with back := (c.mailbox.publish drawn).2 }
    mailbox := (c.mailbox.publish drawn).1 }

def paint (c : Controller leds rows cols) (frame : Frame leds) : Controller leds rows cols :=
  { c with canvas := { c.canvas with frame } }

def post (c : Controller leds rows cols) (command : Command) :
    Except Fault (Controller leds rows cols) :=
  (c.mailbox.post command).map fun mailbox => { c with mailbox }

def call (c : Controller leds rows cols) : Call → Except Fault (Controller leds rows cols)
  | .setColor index color => (c.canvas.frame.set index color).map c.paint
  | .fill color => .ok (c.paint (c.canvas.frame.fill color))
  | .flush => .ok c.flush
  | .setGain gain => c.post (.setGain (gain &&& Register.gainMask))
  | .setOutput on => c.post (.setOutput on)

/-- The signals of what a step or tick tells the panel. -/
def emit (sent : Controller leds rows cols × List (Instruction cols)) :
    Controller leds rows cols × Trace :=
  (sent.1, sent.2.flatMap Instruction.signals)

def act (c : Controller leds rows cols) :
    Action → Except Fault (Controller leds rows cols × Trace)
  | .call call => (c.call call).map (·, [])
  | .step => .ok (emit c.step)
  | .tick => .ok (emit c.tick)
  | .drive line level => .ok (c, [.drive line level])
  | .present word => .ok (c, [.present word])

/-- Performs actions in order, passing over those that are refused. -/
def run (c : Controller leds rows cols) : List Action → Controller leds rows cols × Trace
  | [] => (c, [])
  | a :: rest =>
    match c.act a with
    | .ok (next, trace) =>
      let after := next.run rest
      (after.1, trace ++ after.2)
    | .error _ => c.run rest

theorem run_append (c : Controller leds rows cols) (s t : List Action) :
    c.run (s ++ t) = (((c.run s).1.run t).1, (c.run s).2 ++ ((c.run s).1.run t).2) := by
  induction s generalizing c with
  | nil => simp [run]
  | cons a s ih =>
    simp only [List.cons_append, run]
    split <;> simp [ih]

end Controller

end LedMatrix

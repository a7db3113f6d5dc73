import LedMatrix.Controller.Action
import LedMatrix.Controller.Start
import LedMatrix.Wiring

/-! # Panels

A panel is a board's wiring with either the storage for its banks or, once
started, the controller that holds them. It can be started once; stopping it
leaves the storage, dirty as it is, for another start. Traces are those that
reach the board. -/

namespace LedMatrix

/-- The banks are either in storage or in the hands of a controller. -/
inductive Operation (leds rows cols : Nat) where
  | stopped (storage : Banks rows cols)
  | running (controller : Controller leds rows cols)
  deriving DecidableEq

structure Panel (leds rows cols : Nat) where
  wiring : Wiring
  operation : Operation leds rows cols
  deriving DecidableEq

inductive Request (leds : Nat) where
  | start (config : Config) (layout : Layout leds)
  | act (action : Action)
  | stop

namespace Panel

variable {leds rows cols : Nat}

def unstarted (wiring : Wiring) : Panel leds rows cols := ⟨wiring, .stopped .dark⟩

def controller? (panel : Panel leds rows cols) : Option (Controller leds rows cols) :=
  match panel.operation with
  | .stopped _ => none
  | .running controller => some controller

/-- Whether the last flushed frame has yet to be shown; never before a start. -/
def isPending (panel : Panel leds rows cols) : Bool := panel.controller?.any (·.isPending)

/-- Starts a panel that is stopped. One that is running is refused as such only
when the settings pass every other check. -/
def start (timebase : Timebase) (panel : Panel leds rows cols) (config : Config)
    (layout : Layout leds) : Except Fault (Panel leds rows cols × Trace) :=
  match Setup.check rows cols config layout with
  | .error fault => .error fault
  | .ok setup =>
    match panel.operation with
    | .running _ => .error .alreadyStarted
    | .stopped storage =>
      let begun := setup.begin timebase storage
      .ok (⟨panel.wiring, .running begun.1⟩, panel.wiring.carryAll begun.2)

def act (panel : Panel leds rows cols) (action : Action) :
    Except Fault (Panel leds rows cols × Trace) :=
  match panel.operation with
  | .stopped _ => .error .notStarted
  | .running controller =>
    (controller.act action).map fun (next, trace) =>
      (⟨panel.wiring, .running next⟩, panel.wiring.carryAll trace)

/-- Lets the controller go; its banks stay as they are. -/
def stop (panel : Panel leds rows cols) : Panel leds rows cols :=
  match panel.operation with
  | .stopped _ => panel
  | .running controller => ⟨panel.wiring, .stopped controller.banks⟩

def handle (timebase : Timebase) (panel : Panel leds rows cols) :
    Request leds → Except Fault (Panel leds rows cols × Trace)
  | .start config layout => panel.start timebase config layout
  | .act action => panel.act action
  | .stop => .ok (panel.stop, [])

/-- Serves requests in order, passing over those that are refused. -/
def serve (timebase : Timebase) (panel : Panel leds rows cols) :
    List (Request leds) → Panel leds rows cols × Trace
  | [] => (panel, [])
  | r :: rest =>
    match panel.handle timebase r with
    | .ok (next, trace) =>
      let after := next.serve timebase rest
      (after.1, trace ++ after.2)
    | .error _ => panel.serve timebase rest

end Panel

end LedMatrix

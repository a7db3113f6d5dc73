import LedMatrix.Config
import LedMatrix.Instruction
import LedMatrix.Mailbox

/-! # The controller's state

A controller has two sides that share a mailbox. The canvas belongs to the
application: the frame it paints and the bank it draws into. The scanner
belongs to the refresh timer: the bank it sends, the row it is at and how far
it is through that row. -/

namespace LedMatrix

/-- The phases of one refresh tick, in the order in which they run. -/
inductive Phase where
  /-- Between ticks. -/
  | idle
  /-- All rows are to be turned off and the row's data sent. -/
  | transfer
  /-- What was sent is to be shown. -/
  | latch
  /-- The grayscale counters are to be restarted. -/
  | reset
  /-- The row is to be lit. -/
  | select
  deriving DecidableEq, Repr

namespace Phase

def next : Phase → Phase
  | .idle => .transfer
  | .transfer => .latch
  | .latch => .reset
  | .reset => .select
  | .select => .idle

/-- How many phases run until the tick ends. -/
def left : Phase → Nat
  | .idle => 5
  | .transfer => 4
  | .latch => 3
  | .reset => 2
  | .select => 1

theorem next_eq_idle_iff {phase : Phase} : phase.next = .idle ↔ phase = .select := by
  cases phase <;> decide

/-- Only the end of a tick starts the count again. -/
theorem left_next {phase : Phase} (h : phase ≠ .select) : phase.left = phase.next.left + 1 := by
  cases phase <;> simp_all [left, next]

end Phase

/-- The application's side. -/
structure Canvas (leds rows cols : Nat) where
  frame : Frame leds
  layout : Layout leds
  curve : Curve
  /-- The bank that the next frame is drawn into. -/
  back : Bank rows cols
  deriving DecidableEq

/-- The refresh timer's side. -/
structure Scanner (rows cols : Nat) where
  /-- The bank that is sent. -/
  active : Bank rows cols
  /-- The row that the current or next tick sends. -/
  row : Fin rows
  phase : Phase
  deriving DecidableEq

namespace Scanner

variable {rows cols : Nat}

def current (scanner : Scanner rows cols) : Row cols := scanner.active[scanner.row]

/-- The row after this one, the first row after the last. -/
def nextRow (scanner : Scanner rows cols) : Fin rows :=
  ⟨(scanner.row.val + 1) % rows, Nat.mod_lt _ (Nat.zero_lt_of_lt scanner.row.isLt)⟩

/-- The number of the current row's line. -/
def line (scanner : Scanner rows cols) : UInt8 := UInt8.ofNat scanner.row.val

end Scanner

structure Controller (leds rows cols : Nat) where
  canvas : Canvas leds rows cols
  mailbox : Mailbox rows cols
  scanner : Scanner rows cols
  /-- Row lines are numbered by a byte. -/
  addressable : rows ≤ 256
  deriving DecidableEq

namespace Controller

variable {leds rows cols : Nat}

def phase (c : Controller leds rows cols) : Phase := c.scanner.phase

def row (c : Controller leds rows cols) : Fin rows := c.scanner.row

/-- The bank that is being shown. -/
def active (c : Controller leds rows cols) : Bank rows cols := c.scanner.active

def frame (c : Controller leds rows cols) : Frame leds := c.canvas.frame

def layout (c : Controller leds rows cols) : Layout leds := c.canvas.layout

/-- Whether the last flushed frame has yet to be shown on every row. -/
def isPending (c : Controller leds rows cols) : Bool := c.mailbox.isPending

/-- Every row has a line of its own. -/
theorem toNat_line (c : Controller leds rows cols) : c.scanner.line.toNat = c.row.val := by
  have h := c.addressable
  have hr := c.scanner.row.isLt
  exact Nat.mod_eq_of_lt (by omega)

/-- The banks in the hands of either side. -/
def banks (c : Controller leds rows cols) : Banks rows cols :=
  ⟨c.canvas.back, c.mailbox.published, c.scanner.active⟩

end Controller

end LedMatrix

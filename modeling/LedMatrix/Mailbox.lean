import LedMatrix.Bank
import LedMatrix.Command
import LedMatrix.Fault

/-! # The mailbox between drawing and scanning

The application publishes banks and posts commands; the scan adopts the
published bank when it is about to send the first row, and takes the posted
commands, the oldest first. Publishing and adopting only swap banks, so neither side ever
holds the bank of the other.

A published bank is pending until the first scan that shows it has ended. That
time has two parts: `waiting` from publication to adoption, and `firstScan`
from adoption to the end of that scan. -/

namespace LedMatrix

structure Mailbox (rows cols : Nat) where
  published : Bank rows cols
  waiting : Bool
  firstScan : Bool
  queue : CommandQueue
  deriving DecidableEq

namespace Mailbox

variable {rows cols : Nat}

/-- Nothing waits and nothing is queued. -/
def idle (published : Bank rows cols) : Mailbox rows cols := ⟨published, false, false, .empty⟩

/-- Whether the last published bank has yet to be shown on every row. -/
def isPending (box : Mailbox rows cols) : Bool := box.waiting || box.firstScan

/-- Leaves a bank for the scan, and gives back the one that was there. -/
def publish (box : Mailbox rows cols) (bank : Bank rows cols) :
    Mailbox rows cols × Bank rows cols :=
  ({ box with published := bank, waiting := true }, box.published)

/-- Takes the bank that waits, if one does, and leaves the old one for reuse. -/
def adopt (box : Mailbox rows cols) (active : Bank rows cols) :
    Mailbox rows cols × Bank rows cols :=
  if box.waiting then
    ({ box with published := active, waiting := false, firstScan := true }, box.published)
  else (box, active)

/-- Notes that every row of the adopted bank has been shown. -/
def completeScan (box : Mailbox rows cols) : Mailbox rows cols := { box with firstScan := false }

/-- Queues a command, unless the queue is full. -/
def post (box : Mailbox rows cols) (command : Command) : Except Fault (Mailbox rows cols) :=
  match box.queue.push? command with
  | some queue => .ok { box with queue }
  | none => .error (.queueFull command)

/-- Takes the oldest command, if there is one. -/
def pop? (box : Mailbox rows cols) : Option (Command × Mailbox rows cols) :=
  box.queue.pop?.map fun (command, queue) => (command, { box with queue })

/-- The mailbox after every posted command was taken. -/
def drained (box : Mailbox rows cols) : Mailbox rows cols := { box with queue := .empty }

theorem pop?_eq_none_iff {box : Mailbox rows cols} : box.pop? = none ↔ box.queue = .empty := by
  rw [pop?, Option.map_eq_none_iff, CommandQueue.pop?_eq_none_iff]

/-- What is popped was the first in the queue, and nothing else changes. -/
theorem of_pop? {box rest : Mailbox rows cols} {command : Command}
    (h : box.pop? = some (command, rest)) :
    box.queue.commands = command :: rest.queue.commands ∧ rest.drained = box.drained := by
  obtain ⟨⟨_, queue⟩, popped, found⟩ := Option.map_eq_some_iff.mp h
  cases found
  exact ⟨CommandQueue.commands_of_pop? popped, rfl⟩

theorem length_lt_of_pop? {box rest : Mailbox rows cols} {command : Command}
    (h : box.pop? = some (command, rest)) :
    rest.queue.commands.length < box.queue.commands.length := by
  rw [(of_pop? h).1]
  exact Nat.lt_succ_self _

theorem isPending_completeScan (box : Mailbox rows cols) :
    box.completeScan.isPending = box.waiting := by
  simp [completeScan, isPending]

theorem post_eq_error_iff {box : Mailbox rows cols} {command : Command} {fault : Fault} :
    box.post command = .error fault ↔
      fault = .queueFull command ∧ box.queue.commands.length = CommandQueue.capacity := by
  rw [← CommandQueue.push?_eq_none_iff (c := command)]
  unfold post
  split <;> rename_i h
  · simp [h]
  · simp only [h, Except.error.injEq, and_true]
    exact eq_comm

end Mailbox

end LedMatrix

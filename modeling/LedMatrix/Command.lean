/-! # Control commands and the queue they wait in

A command is queued by the application and carried out by the scan between two
row transfers. The queue keeps arrival order and holds at most four commands;
pushing fails exactly when it is full. -/

namespace LedMatrix

inductive Command where
  | setGain (gain : UInt8)
  | setOutput (on : Bool)
  deriving DecidableEq, Repr

def Command.describe : Command → String
  | .setGain gain => s!"SetCurrentGain({gain})"
  | .setOutput true => "SetOutputEnabled(true)"
  | .setOutput false => "SetOutputEnabled(false)"

def CommandQueue.capacity : Nat := 4

structure CommandQueue where
  /-- The oldest command first. -/
  commands : List Command
  bounded : commands.length ≤ CommandQueue.capacity
  deriving DecidableEq

namespace CommandQueue

def empty : CommandQueue := ⟨[], Nat.zero_le _⟩

/-- Appends a command, if there is room for it. -/
def push? (q : CommandQueue) (c : Command) : Option CommandQueue :=
  if h : q.commands.length < capacity then
    some ⟨q.commands ++ [c], by rw [List.length_append]; exact h⟩
  else none

/-- Takes the oldest command, if there is one. -/
def pop? : CommandQueue → Option (Command × CommandQueue)
  | ⟨[], _⟩ => none
  | ⟨c :: rest, h⟩ => some (c, ⟨rest, Nat.le_of_succ_le h⟩)

theorem push?_eq_none_iff {q : CommandQueue} {c : Command} :
    q.push? c = none ↔ q.commands.length = capacity := by
  have := q.bounded
  unfold push?
  split <;> simp <;> omega

theorem commands_push? {q r : CommandQueue} {c : Command} (h : q.push? c = some r) :
    r.commands = q.commands ++ [c] := by
  unfold push? at h
  split at h
  · cases h; rfl
  · cases h

theorem pop?_eq_none_iff {q : CommandQueue} : q.pop? = none ↔ q = empty := by
  obtain ⟨commands, bounded⟩ := q
  cases commands <;> simp [pop?, empty]

theorem commands_of_pop? {q r : CommandQueue} {c : Command} (h : q.pop? = some (c, r)) :
    q.commands = c :: r.commands := by
  obtain ⟨commands, bounded⟩ := q
  cases commands <;> cases h
  rfl

end CommandQueue

end LedMatrix

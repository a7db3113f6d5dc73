import LedMatrix.Proofs.Chips
import LedMatrix.Proofs.History

/-! # What reaches the board

An event is a signal on the board together with the moment that sent it. From
the events of a run one can tell which bank the row was taken from that is lit
now: look back to where its line was raised, and further back to the transfer
before that. -/

namespace LedMatrix

variable {leds rows cols : Nat}

structure Event (leds rows cols : Nat) where
  signal : Signal
  /-- The moment that sent it; what a start sends has none. -/
  cause : Option (Moment leds rows cols)

def Moment.events (wiring : Wiring) (m : Moment leds rows cols) : List (Event leds rows cols) :=
  (wiring.carryAll m.trace).map (⟨·, some m⟩)

/-- The events of a start and of what happened since. -/
def eventsOf (wiring : Wiring) (t : Trace) (past : List (Moment leds rows cols)) :
    List (Event leds rows cols) :=
  (wiring.carryAll t).map (⟨·, none⟩) ++ past.flatMap (Moment.events wiring)

namespace Event

variable {e : Event leds rows cols}

def raises (n : UInt8) (e : Event leds rows cols) : Bool := e.signal = .drive (.row n) .high

/-- The bank that the event sends a row of, if a transfer caused it. -/
def bank? (e : Event leds rows cols) : Option (Bank rows cols) :=
  (e.cause.filter (Moment.runs .transfer)).map (·.before.active)

end Event

/-- The bank that the row sent last was taken from. -/
def sentBank? (past : List (Event leds rows cols)) : Option (Bank rows cols) :=
  past.reverse.findSome? Event.bank?

/-- The bank that a row was taken from when the tick that lit it last sent it. -/
def litBank? (n : UInt8) (past : List (Event leds rows cols)) : Option (Bank rows cols) :=
  sentBank? (past.rdropWhile fun e => !e.raises n)

section Looking

variable {past news : List (Event leds rows cols)} {n : UInt8}

theorem sentBank?_of_none (h : ∀ e ∈ news, e.bank? = none) :
    sentBank? (past ++ news) = sentBank? past := by
  have none : news.reverse.findSome? Event.bank? = none :=
    List.findSome?_eq_none_iff.mpr fun e he => h e (List.mem_reverse.mp he)
  rw [sentBank?, List.reverse_append, List.findSome?_append, none, Option.none_or, sentBank?]

theorem sentBank?_of_some {bank : Bank rows cols} (hne : news ≠ [])
    (h : ∀ e ∈ news, e.bank? = some bank) : sentBank? (past ++ news) = some bank := by
  obtain ⟨older, e, rfl⟩ : ∃ older e, news = older ++ [e] :=
    ⟨_, _, (List.dropLast_append_getLast hne).symm⟩
  have last : e.bank? = some bank := h e (by simp)
  simp [sentBank?, last]

theorem litBank?_of_not_raised (h : ∀ e ∈ news, e.raises n = false) :
    litBank? n (past ++ news) = litBank? n past := by
  induction news using List.reverseRecOn with
  | nil => rw [List.append_nil]
  | append_singleton news e ih =>
    have last : e.raises n = false := h e (by simp)
    rw [← ih fun e' he => h e' (List.mem_append_left _ he), ← List.append_assoc, litBank?,
      List.rdropWhile_concat_pos _ _ _ (by rw [last]; rfl), litBank?]

theorem litBank?_raised {e : Event leds rows cols} (h : e.raises n = true) :
    litBank? n (past ++ [e]) = sentBank? (past ++ [e]) := by
  rw [litBank?, List.rdropWhile_concat_neg _ _ _ (by simp [h])]

end Looking

/-! ## The events of a run -/

theorem signals_caused (trace : Trace) (cause : Option (Moment leds rows cols)) :
    (trace.map (⟨·, cause⟩ : Signal → Event leds rows cols)).map Event.signal = trace := by
  rw [List.map_map]
  exact List.map_id _

theorem signals_events (wiring : Wiring) (m : Moment leds rows cols) :
    (m.events wiring).map Event.signal = wiring.carryAll m.trace := signals_caused _ _

theorem eventsOf_append (wiring : Wiring) (t : Trace) (past : List (Moment leds rows cols))
    (m : Moment leds rows cols) :
    eventsOf wiring t (past ++ [m]) = eventsOf wiring t past ++ m.events wiring := by
  simp [eventsOf]

theorem signals_flatMap_events (wiring : Wiring) (past : List (Moment leds rows cols)) :
    (past.flatMap (Moment.events wiring)).map Event.signal =
      wiring.carryAll (past.flatMap Moment.trace) := by
  induction past with
  | nil => rfl
  | cons m past ih =>
    rw [List.flatMap_cons, List.flatMap_cons, List.map_append, ih, signals_events,
      Wiring.carryAll_append]

/-- The events of a run are what its panel puts on the board. -/
theorem signals_eventsOf_history (wiring : Wiring) (t : Trace) (c : Controller leds rows cols)
    (actions : List Action) :
    (eventsOf wiring t (c.history actions)).map Event.signal =
      wiring.carryAll t ++ wiring.carryAll (c.run actions).2 := by
  rw [eventsOf, List.map_append, signals_caused, signals_flatMap_events, Controller.trace_history]

theorem prefix_of_append {α : Type} {s a b : List α} (h : s <+: a ++ b) :
    s <+: a ∨ ∃ rest, rest <+: b ∧ s = a ++ rest := by
  rcases List.prefix_or_prefix_of_prefix h (List.prefix_append a b) with h' | ⟨rest, rfl⟩
  · exact .inl h'
  · exact .inr ⟨rest, (List.prefix_append_right_inj a).mp h, rfl⟩

/-- A run that is cut anywhere is cut within a moment, or ends with one. -/
theorem prefix_flatMap {α β : Type} {f : α → List β} {s : List β} {l : List α}
    (h : s <+: l.flatMap f) :
    s = l.flatMap f ∨
      ∃ older a newer cut, l = older ++ a :: newer ∧ cut <+: f a ∧ s = older.flatMap f ++ cut := by
  induction l generalizing s with
  | nil => exact .inl (List.prefix_nil.mp h)
  | cons a l ih =>
    rcases prefix_of_append h with h' | ⟨rest, hrest, rfl⟩
    · exact .inr ⟨[], a, l, s, rfl, h', rfl⟩
    · rcases ih hrest with rfl | ⟨older, b, newer, cut, rfl, hcut, rfl⟩
      · exact .inl rfl
      · exact .inr ⟨a :: older, b, newer, cut, rfl, hcut, (List.append_assoc ..).symm⟩

/-- The last event of a run that is cut lies within some moment. -/
theorem prefix_flatMap_concat {α β : Type} {f : α → List β} {s : List β} {x : β} {l : List α}
    (h : s ++ [x] <+: l.flatMap f) :
    ∃ older a newer cut, l = older ++ a :: newer ∧ cut ++ [x] <+: f a ∧
      s = older.flatMap f ++ cut := by
  induction l generalizing s with
  | nil => simp at h
  | cons a l ih =>
    rcases prefix_of_append h with here | ⟨rest, hrest, split⟩
    · exact ⟨[], a, l, s, rfl, here, rfl⟩
    · rcases List.eq_nil_or_concat rest with rfl | ⟨cut, y, rfl⟩
      · rw [List.append_nil] at split
        exact ⟨[], a, l, s, rfl, split ▸ List.prefix_refl _, rfl⟩
      · rw [List.concat_eq_append, ← List.append_assoc] at split
        obtain ⟨rfl, last⟩ := List.append_inj' split rfl
        cases last
        rw [List.concat_eq_append] at hrest
        obtain ⟨older, b, newer, cut, rfl, hcut, rfl⟩ := ih hrest
        exact ⟨a :: older, b, newer, cut, rfl, hcut, (List.append_assoc ..).symm⟩

/-! ## Who drives a line -/

/-- A burst drives clock and latch, and presents words. -/
theorem Burst.drive_not_mem (burst : Burst) {line : Line} (clock : line ≠ .clock)
    (latch : line ≠ .latch) (level : Level) : .drive line level ∉ burst.signals := by
  have cycles (i : Fin 16) : .drive line level ∉ burst.cycle i := by
    cases hd : burst.data <;> simp [Burst.cycle, Burst.pulse, hd, clock, latch]
  simp [Burst.signals, cycles, latch]

/-- Only lighting a row raises a row line. -/
theorem Instruction.not_raised {i : Instruction cols} {n : UInt8} (h : ∀ row, i ≠ .rowOn row) :
    .drive (.row n) .high ∉ i.signals := by
  cases i with
  | shift _ | latchAll | resetCounter | configure _ =>
    simp [signals, Burst.opening, Burst.drive_not_mem]
  | output _ | rowsOff _ => simp [signals]
  | rowOn row => exact absurd rfl (h row)

/-- Apart from the words on the data lines, a wiring brings a line no level that was
not sent, and none without a pin. -/
theorem Wiring.mem_carryAll_drive {wiring : Wiring} {trace : Trace} {line : Line} {level : Level}
    (hline : ∀ p, line ≠ .data p) (h : .drive line level ∈ wiring.carryAll trace) :
    .drive line level ∈ trace ∧ wiring.hasPin line = true := by
  obtain ⟨s, hs, hcarry⟩ := List.mem_flatMap.mp h
  cases s with
  | drive driven sent =>
    rw [Wiring.carry_drive] at hcarry
    split at hcarry
    · rename_i pin
      rw [List.mem_singleton] at hcarry
      cases hcarry
      exact ⟨hs, pin⟩
    · cases hcarry
  | present word => cases wiring <;> simp [Wiring.carry, Word.spread, Primary.all, hline] at hcarry
  | timerPeriod period => cases wiring <;> simp [Wiring.carry] at hcarry
  | timerOn => cases wiring <;> simp [Wiring.carry] at hcarry

/-- A line with a pin gets every level that was sent. -/
theorem Wiring.mem_carryAll_of_hasPin {wiring : Wiring} {trace : Trace} {line : Line}
    {level : Level} (h : .drive line level ∈ trace) (pin : wiring.hasPin line = true) :
    .drive line level ∈ wiring.carryAll trace := by
  refine List.mem_flatMap.mpr ⟨_, h, ?_⟩
  rw [Wiring.carry_drive, if_pos pin]
  exact List.mem_singleton_self _

/-- Turning the rows off lowers every row line of the grid. -/
theorem Instruction.lowered_of_rowsOff {n : UInt8} (h : n.toNat < rows) :
    .drive (.row n) .low ∈ (Instruction.rowsOff rows : Instruction cols).signals := by
  refine List.mem_map.mpr ⟨n.toNat, List.mem_range.mpr ?_, by simp⟩
  have := n.toNat_lt
  omega

theorem Wiring.not_raised {wiring : Wiring} {trace sent : Trace} {n : UInt8}
    (h : .drive (.row n) .high ∉ trace) (hsent : sent <+: wiring.carryAll trace) :
    .drive (.row n) .high ∉ sent :=
  fun hs => h (Wiring.mem_carryAll_drive (by simp) (hsent.subset hs)).1

theorem Wiring.prefix_carryAll_drive {wiring : Wiring} {line : Line} {level : Level} {sent : Trace}
    (h : sent <+: wiring.carryAll [.drive line level]) :
    sent = [] ∨ sent = [.drive line level] := by
  rw [Wiring.carryAll, List.flatMap_singleton, Wiring.carry_drive] at h
  split at h
  · rcases List.prefix_cons_iff.mp h with rfl | ⟨rest, rfl, hrest⟩
    · exact .inl rfl
    · exact .inr (by rw [List.prefix_nil.mp hrest])
  · exact .inl (List.prefix_nil.mp h)

end LedMatrix

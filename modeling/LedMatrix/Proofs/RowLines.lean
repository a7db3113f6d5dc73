import LedMatrix.Proofs.LitRow

/-! # One row line at a time

Whatever the lines carried before a start, it leaves every row of the grid dark.
From then on a row line rises only at the end of a tick, which turned all of them
off before it sent its row. So at most one of them is high after any event, none
while a row is sent and shown, and after a turn it is that row's. -/

namespace LedMatrix
open Levels (rises)

variable {leds rows cols : Nat}

/-- A row line of the grid that has a pin on the board and is high. -/
structure Lit (wiring : Wiring) (rows : Nat) (levels : Levels) (n : UInt8) : Prop where
  inGrid : n.toNat < rows
  pin : wiring.hasPin (.row n) = true
  high : levels (.row n) = .high

/-- Whether all rows are off while the controller is between two steps. -/
def Phase.isDark : Phase → Bool
  | .idle | .transfer => false
  | .latch | .reset | .select => true

/-- The row that was sent last. -/
def sentRow? (past : List (Moment leds rows cols)) : Option (Fin rows) :=
  (past.reverse.find? (Moment.runs .transfer)).map (·.before.row)

/-- What the lines carry after some events. -/
def Levels.afterEvents (levels : Levels) (events : List (Event leds rows cols)) : Levels :=
  levels.after (events.map Event.signal)

theorem Levels.afterEvents_moments (levels : Levels) (wiring : Wiring)
    (past : List (Moment leds rows cols)) :
    levels.afterEvents (past.flatMap (Moment.events wiring)) =
      levels.after (wiring.carryAll (past.flatMap Moment.trace)) := by
  rw [afterEvents, signals_flatMap_events]

/-- After some moments and part of what another one sent. -/
theorem Levels.afterEvents_part (levels : Levels) (wiring : Wiring)
    (past : List (Moment leds rows cols)) (sent : Trace) (m : Moment leds rows cols) :
    levels.afterEvents (past.flatMap (Moment.events wiring) ++ sent.map (⟨·, some m⟩)) =
      (levels.after (wiring.carryAll (past.flatMap Moment.trace))).after sent := by
  rw [afterEvents, List.map_append, after_append, signals_flatMap_events, signals_caused]

section Lines

variable {wiring : Wiring} {levels : Levels} {trace : Trace} {s : Signal} {n : UInt8}

/-- A row is lit only if it was, or if some signal raised its line. -/
theorem Lit.of_after (h : Lit wiring rows (levels.after trace) n)
    (quiet : .drive (.row n) .high ∉ trace) : Lit wiring rows levels n :=
  ⟨h.inGrid, h.pin, Levels.row_high_of_after quiet h.high⟩

theorem not_lit_after (dark : ∀ n, ¬Lit wiring rows levels n)
    (quiet : ∀ n, .drive (.row n) .high ∉ trace) (n : UInt8) :
    ¬Lit wiring rows (levels.after trace) n := by
  intro lit
  exact dark n (lit.of_after (quiet n))

/-- A trace that turns the rows off, and raises none, leaves none lit. -/
theorem not_lit_of_rowsOff
    (off : (Instruction.rowsOff rows : Instruction cols).signals ⊆ trace)
    (quiet : .drive (.row n) .high ∉ trace) :
    ¬Lit wiring rows (levels.after (wiring.carryAll trace)) n := by
  intro lit
  have lowered := off (Instruction.lowered_of_rowsOff lit.inGrid)
  have low : levels.after (wiring.carryAll trace) (.row n) = .low :=
    Levels.row_low_of_mem (Wiring.not_raised quiet (List.prefix_refl _))
      (Wiring.mem_carryAll_of_hasPin lowered lit.pin)
  exact absurd (low.symm.trans lit.high) (by decide)

/-- So none is lit while a row is sent. -/
theorem not_lit_of_sending {row : Row cols} {sent : Trace}
    (hsent : sent <+: wiring.carryAll (Instruction.shift row).signals) (n : UInt8) :
    ¬Lit wiring rows (levels.after
      (wiring.carryAll (Instruction.rowsOff rows : Instruction cols).signals ++ sent)) n := by
  rw [Levels.after_append]
  refine not_lit_after (fun n => ?_) (fun n => ?_) n
  · exact not_lit_of_rowsOff (List.Subset.refl _) (Instruction.not_raised (by simp))
  · exact Wiring.not_raised (Instruction.not_raised (by simp)) hsent

/-- Raising one line when all rows are off lights no other row. -/
theorem eq_of_lit_raised {line : UInt8} (dark : ∀ n, ¬Lit wiring rows levels n)
    (lit : Lit wiring rows (levels.after [.drive (.row line) .high]) n) : n = line := by
  by_contra other
  have kept : levels.after [.drive (.row line) .high] (.row n) = levels (.row n) :=
    Function.update_of_ne (by simpa using other) ..
  exact dark n ⟨lit.inGrid, lit.pin, kept ▸ lit.high⟩

/-- The clock rises on no other signal. -/
theorem eq_of_clock_rises (h : rises .clock levels (levels.apply s) = true) :
    s = .drive .clock .high := by
  obtain ⟨before, after⟩ : levels .clock = .low ∧ levels.apply s .clock = .high := by
    simpa [rises] using h
  have touched : s.touches .clock = true := by
    by_contra untouched
    rw [Levels.apply_of_touches (by simpa using untouched), before] at after
    cases after
  cases s with
  | present _ | timerPeriod _ | timerOn => cases touched
  | drive line level =>
    obtain rfl : line = .clock := by simpa [Signal.touches] using touched
    obtain rfl : level = .high := by simpa [Levels.apply] using after
    rfl

theorem sentRow?_transfer (past : List (Moment leds rows cols)) {m : Moment leds rows cols}
    (hm : m.runs .transfer = true) : sentRow? (past ++ [m]) = some m.before.row := by
  simp [sentRow?, hm]

theorem sentRow?_other (past : List (Moment leds rows cols)) {m : Moment leds rows cols}
    (hm : m.runs .transfer = false) : sentRow? (past ++ [m]) = sentRow? past := by
  simp [sentRow?, hm]

end Lines

namespace Controller

/-- What the row lines carry between two moments. -/
structure Darkens (wiring : Wiring) (past : List (Moment leds rows cols))
    (now : Controller leds rows cols) (levels : Levels) : Prop where
  single : ∀ n k, Lit wiring rows levels n → Lit wiring rows levels k → n = k
  dark : now.phase.isDark = true → ∀ n, ¬Lit wiring rows levels n
  sent : now.phase.isDark = true → sentRow? past = some now.row

variable {wiring : Wiring} {past : List (Moment leds rows cols)} {now : Controller leds rows cols}
  {levels : Levels} {m : Moment leds rows cols} {sent : Trace} {s : Signal}

/-! ## Within a moment -/

/-- A turn that finds all rows off lights its own, if that row has a pin, and no other. -/
theorem lit_select_iff (dark : ∀ n, ¬Lit wiring rows levels n) (hp : now.phase = .select)
    (n : UInt8) :
    Lit wiring rows (levels.after (wiring.carryAll (Moment.ofStep now).trace)) n ↔
      n.toNat = now.row.val ∧ wiring.hasPin (.row n) = true := by
  have line := toNat_line now
  rw [trace_select hp]
  constructor
  · intro lit
    refine ⟨?_, lit.pin⟩
    rcases Wiring.prefix_carryAll_drive (List.prefix_refl (wiring.carryAll _)) with none | raised
    · rw [none] at lit
      exact absurd lit (dark n)
    · rw [raised] at lit
      rw [eq_of_lit_raised dark lit, line]
  · rintro ⟨row, pin⟩
    obtain rfl : n = now.scanner.line := UInt8.toNat_inj.mp (row.trans line.symm)
    refine ⟨row ▸ now.row.isLt, pin, ?_⟩
    rw [Wiring.carryAll, List.flatMap_singleton, Wiring.carry_drive, if_pos pin]
    exact Function.update_self ..

theorem lit_of_select (h : Darkens wiring past now levels) (hp : now.phase = .select) (n : UInt8) :
    Lit wiring rows (levels.after (wiring.carryAll (Moment.ofStep now).trace)) n ↔
      n.toNat = now.row.val ∧ wiring.hasPin (.row n) = true :=
  lit_select_iff (h.dark (by rw [hp]; rfl)) hp n

theorem single_within (h : Darkens wiring past m.before levels)
    (hstep : m.action ≠ .step → m.isCall = true) (hsent : sent <+: wiring.carryAll m.trace)
    (n k : UInt8) (hn : Lit wiring rows (levels.after sent) n)
    (hk : Lit wiring rows (levels.after sent) k) : n = k := by
  obtain ⟨now, a⟩ := m
  by_cases ha : a = .step
  · subst ha
    by_cases hp : now.phase = .select
    · rw [trace_select hp] at hsent
      rcases Wiring.prefix_carryAll_drive hsent with rfl | rfl
      · exact h.single n k hn hk
      · have dark := h.dark (by rw [hp]; rfl)
        exact (eq_of_lit_raised dark hn).trans (eq_of_lit_raised dark hk).symm
    · have quiet := fun n => Wiring.not_raised (not_raised_of_step hp n) hsent
      exact h.single n k (hn.of_after (quiet n)) (hk.of_after (quiet k))
  · rw [trace_of_isCall (hstep ha)] at hsent
    obtain rfl := List.prefix_nil.mp hsent
    exact h.single n k hn hk

/-- A transfer sends nothing before all rows are off. -/
theorem dark_of_sending (hm : m.runs .transfer = true)
    (hs : sent ++ [s] <+: wiring.carryAll m.trace)
    (clock : s = .drive .clock .high) (n : UInt8) :
    ¬Lit wiring rows (levels.after (sent ++ [s])) n := by
  rw [trace_of_transfer hm, transferTrace, Wiring.carryAll_append] at hs
  rcases prefix_of_append hs with early | ⟨rest, hrest, split⟩
  · -- turning the rows off drives no clock
    have off : s ∈ wiring.carryAll (Instruction.rowsOff rows : Instruction cols).signals :=
      early.subset (List.mem_append_right sent (List.mem_singleton_self s))
    obtain ⟨source, hsource, hcarry⟩ := List.mem_flatMap.mp off
    obtain ⟨row, -, rfl⟩ := List.mem_map.mp hsource
    rw [Wiring.carry_drive] at hcarry
    split at hcarry
    · rw [clock] at hcarry
      cases List.mem_singleton.mp hcarry
    · cases hcarry
  · rw [split]
    exact not_lit_of_sending hrest n

/-- While a row is sent and shown, every clock finds all rows off. -/
theorem dark_of_clock (h : Darkens wiring past m.before levels)
    (hm : m.runs .transfer = true ∨ m.runs .latch = true ∨ m.runs .reset = true)
    (hs : sent ++ [s] <+: wiring.carryAll m.trace)
    (clock : rises .clock (levels.after sent) (levels.after (sent ++ [s])) = true) (n : UInt8) :
    ¬Lit wiring rows (levels.after (sent ++ [s])) n := by
  have rise : s = .drive .clock .high := by
    rw [Levels.after_append] at clock
    exact eq_of_clock_rises clock
  rcases hm with hm | hm
  · exact dark_of_sending hm hs rise n
  · obtain ⟨now, a⟩ := m
    obtain ⟨rfl, hp⟩ : a = .step ∧ (now.phase = .latch ∨ now.phase = .reset) := by
      simpa [Moment.runs, ← and_or_left] using hm
    have dark : now.phase.isDark = true := by
      rcases hp with hp | hp <;> rw [hp] <;> rfl
    have waits : now.phase ≠ .select := by
      rcases hp with hp | hp <;> rw [hp] <;> decide
    exact not_lit_after (h.dark dark) (fun n => Wiring.not_raised (not_raised_of_step waits n) hs) n

/-! ## From moment to moment -/

theorem darkens_step (h : Darkens wiring past now levels) :
    Darkens wiring (past ++ [.ofStep now]) now.step.1
      (levels.after (wiring.carryAll (Moment.ofStep now).trace)) := by
  have next := phase_step now
  refine ⟨single_within (m := .ofStep now) h (absurd rfl) (List.prefix_refl _), ?_, ?_⟩
  · intro isDark n
    cases hp : now.phase with
    | idle | select =>
      rw [next, hp] at isDark
      cases isDark
    | transfer =>
      rw [trace_of_transfer (by simp [Moment.runs, hp]), transferTrace, Wiring.carryAll_append]
      exact not_lit_of_sending (List.prefix_refl _) n
    | latch | reset =>
      have waits : now.phase ≠ .select := by simp [hp]
      exact not_lit_after (h.dark (by rw [hp]; rfl))
        (fun n => Wiring.not_raised (not_raised_of_step waits n) (List.prefix_refl _)) n
  · intro isDark
    cases hp : now.phase with
    | idle | select =>
      rw [next, hp] at isDark
      cases isDark
    | transfer =>
      rw [sentRow?_transfer past (by simp [Moment.runs, hp]), row_step (by simp [hp])]
    | latch | reset =>
      rw [sentRow?_other past (by simp [Moment.runs, hp]), row_step (by simp [hp])]
      exact h.sent (by rw [hp]; rfl)

theorem darkens_call (h : Darkens wiring past now levels) (call : Call) :
    Darkens wiring (past ++ [⟨now, .call call⟩]) (now.run [.call call]).1 levels := by
  have same := scanner_run_call now call
  have phase : (now.run [.call call]).1.phase = now.phase := congrArg Scanner.phase same
  have row : (now.run [.call call]).1.row = now.row := congrArg Scanner.row same
  refine ⟨h.single, ?_, ?_⟩
  · rw [phase]
    exact h.dark
  · rw [phase, row, sentRow?_other past (by simp [Moment.runs])]
    exact h.sent

theorem keeps_darkens {actions : List Action} (wiring : Wiring) (levels : Levels)
    (hdirect : ∀ a ∈ actions, a.isDirect = false) :
    Keeps actions fun past (now : Controller leds rows cols) =>
      Darkens wiring past now (levels.after (wiring.carryAll (past.flatMap Moment.trace))) := by
  refine keeps_of_step_call hdirect ?_ ?_
  · intro past now h
    rw [List.flatMap_append, List.flatMap_singleton, Wiring.carryAll_append, Levels.after_append]
    exact darkens_step h
  · intro past now call h
    have silent : (⟨now, .call call⟩ : Moment leds rows cols).trace = [] := trace_of_isCall rfl
    rw [List.flatMap_append, List.flatMap_singleton, silent, List.append_nil]
    exact darkens_call h call

/-! ## Runs -/

variable {timebase : Timebase} {config : Config} {layout : Layout leds} {banks : Banks rows cols}
  {c : Controller leds rows cols} {t : Trace} {actions : List Action}

/-- Whatever the lines carried before, a start leaves all rows off. -/
theorem darkens_start (h : start timebase config layout banks = .ok (c, t)) (wiring : Wiring)
    (levels : Levels) : Darkens wiring [] c (levels.after (wiring.carryAll t)) := by
  obtain ⟨_, period, _, rfl, rfl⟩ := eq_fresh_of_start h
  have off : (Instruction.rowsOff rows : Instruction cols).signals ⊆
      startTrace rows cols config period := by
    intro s hs
    simp [startTrace, bringUp, hs]
  have dark (n : UInt8) : ¬Lit wiring rows
      (levels.after (wiring.carryAll (startTrace rows cols config period))) n :=
    not_lit_of_rowsOff off (not_raised_of_start n)
  refine ⟨?_, ?_, ?_⟩
  · intro n k hn
    exact absurd hn (dark n)
  · intro isDark
    cases isDark
  · intro isDark
    cases isDark

/-- Row lines are mutually exclusive, and dark while data moves. After every single event
since the start at most one row line is high, none while the clock rises for a transfer, a
latch or a reset, and after a turn that of the row its tick sent. -/
theorem row_lines_exclusive (h : start timebase config layout banks = .ok (c, t)) (wiring : Wiring)
    (hdirect : ∀ a ∈ actions, a.isDirect = false) (levels : Levels) :
    let started := levels.after (wiring.carryAll t)
    let all := (c.history actions).flatMap (Moment.events wiring)
    (∀ events, events <+: all →
        ∀ n k, Lit wiring rows (started.afterEvents events) n →
          Lit wiring rows (started.afterEvents events) k → n = k) ∧
      (∀ events e m, events ++ [e] <+: all → e.cause = some m →
        m.runs .transfer = true ∨ m.runs .latch = true ∨ m.runs .reset = true →
        rises .clock (started.afterEvents events) (started.afterEvents (events ++ [e])) = true →
        ∀ n, ¬Lit wiring rows (started.afterEvents (events ++ [e])) n) ∧
      ∀ older m newer, c.history actions = older ++ m :: newer → m.runs .select = true →
        ∃ row, sentRow? older = some row ∧ ∀ n,
          Lit wiring rows (started.afterEvents ((older ++ [m]).flatMap (Moment.events wiring))) n ↔
            n.toNat = row.val ∧ wiring.hasPin (.row n) = true := by
  intro started all
  have keeps : Keeps actions fun past (now : Controller leds rows cols) =>
      Darkens wiring past now (started.after (wiring.carryAll (past.flatMap Moment.trace))) :=
    keeps_darkens wiring started hdirect
  have starts := darkens_start h wiring levels
  refine ⟨?_, ?_, ?_⟩
  · intro events hevents n k hn hk
    rcases prefix_flatMap hevents with rfl | ⟨older, m, newer, cut, split, hcut, rfl⟩
    · rw [Levels.afterEvents_moments] at hn hk
      exact (keeps.run starts).single n k hn hk
    · obtain ⟨sent, hsent, rfl⟩ := List.prefix_map_iff.mp hcut
      rw [Levels.afterEvents_part] at hn hk
      exact single_within (keeps.moment starts split) (isCall_of_history hdirect split) hsent
        n k hn hk
  · intro events e m hevents cause runs clock n
    obtain ⟨older, m', newer, cut, split, hcut, rfl⟩ := prefix_flatMap_concat hevents
    obtain ⟨sent', hsent, hmap⟩ := List.prefix_map_iff.mp hcut
    obtain ⟨sent, last, rfl, rfl, hlast⟩ := List.append_eq_map_iff.mp hmap
    obtain ⟨s, rfl, rfl⟩ := List.map_eq_singleton_iff.mp hlast
    obtain rfl : m' = m := Option.some.inj cause
    have whole : older.flatMap (Moment.events wiring) ++ sent.map (⟨·, some m'⟩) ++
        [(⟨s, some m'⟩ : Event leds rows cols)] =
          older.flatMap (Moment.events wiring) ++ (sent ++ [s]).map (⟨·, some m'⟩) := by
      rw [List.map_append, List.append_assoc]
      rfl
    rw [whole, Levels.afterEvents_part, Levels.afterEvents_part] at clock
    rw [whole, Levels.afterEvents_part]
    exact dark_of_clock (keeps.moment starts split) runs hsent clock n
  · intro older m newer split selects
    have before := keeps.moment starts split
    obtain ⟨now, rfl, hp⟩ := Moment.exists_of_runs selects
    refine ⟨now.row, before.sent (by rw [hp]; rfl), ?_⟩
    intro n
    rw [Levels.afterEvents_moments, List.flatMap_append, List.flatMap_singleton,
      Wiring.carryAll_append, Levels.after_append]
    exact lit_of_select before hp n

/-- All lines are high before the start; after one tick the first of the two rows
is lit, and no other. -/
theorem row_lines_exclusive_first_row :
    let started := Levels.after (fun _ => .high) (Wiring.direct.carryAll (startTrace 2 1 {} ⟨556⟩))
    let past := twoRows.history (List.replicate 5 .step)
    start .microseconds {} #v[⟨0, 0⟩] (.dark : Banks 2 1) =
      .ok (twoRows, startTrace 2 1 {} ⟨556⟩) ∧
      (∀ a ∈ List.replicate 5 Action.step, a.isDirect = false) ∧
      ∀ n, Lit .direct 2 (started.afterEvents (past.flatMap (Moment.events .direct))) n ↔
        n.toNat = 0 ∧ Wiring.direct.hasPin (.row n) = true := by
  intro started past
  have ordinary : ∀ a ∈ List.replicate 5 Action.step, a.isDirect = false := by decide
  have split : past = twoRows.history (List.replicate 4 .step) ++
      [⟨(twoRows.run (List.replicate 4 .step)).1, .step⟩] := rfl
  obtain ⟨row, source, lit⟩ :=
    (row_lines_exclusive start_twoRows .direct ordinary fun _ => .high).2.2
    _ _ [] split (by decide)
  obtain rfl : row = 0 := by
    have first : sentRow? (twoRows.history (List.replicate 4 .step)) = some 0 := by decide
    exact Option.some.inj (source.symm.trans first)
  rw [← split] at lit
  exact ⟨start_twoRows, ordinary, lit⟩

end Controller

end LedMatrix

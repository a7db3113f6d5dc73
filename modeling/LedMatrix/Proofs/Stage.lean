import LedMatrix.Proofs.Events
import LedMatrix.Proofs.Rotation

/-! # What the chips hold, phase by phase

A tick turns the rows off before it sends anything, and lights its row last,
when its data is shown. A register that is written while a row is lit moves no
columns. So a row that is high shows the row that was sent for it, between two
moments and at every signal within one. -/

namespace LedMatrix

variable {leds rows cols : Nat}

/-- The moment at which a controller steps. -/
abbrev Moment.ofStep (now : Controller leds rows cols) : Moment leds rows cols := ⟨now, .step⟩

theorem Moment.exists_of_runs {phase : Phase} {m : Moment leds rows cols}
    (h : m.runs phase = true) :
    ∃ now : Controller leds rows cols, m = .ofStep now ∧ now.phase = phase := by
  obtain ⟨now, a⟩ := m
  obtain ⟨rfl, hp⟩ : a = .step ∧ now.phase = phase := by simpa [Moment.runs] using h
  exact ⟨now, rfl, hp⟩

namespace Controller

/-- The chips show row `n` of the bank that it was last lit from. -/
def ShowsRow (past : List (Event leds rows cols)) (displayed : List (Primary → UInt16))
    (n : UInt8) : Prop :=
  ∃ (h : n.toNat < rows) (bank : Bank rows cols),
    litBank? n past = some bank ∧ displayed = bank[n.toNat].sent

/-- Where the data of the current row is, phase by phase. -/
inductive Stage (past : List (Event leds rows cols)) (now : Controller leds rows cols)
    (r : Receiver) : Prop where
  | lit (phase : now.phase = .idle ∨ now.phase = .transfer) (pending : r.columns.pending = [])
      (shows : ∀ n, r.levels (.row n) = .high → ShowsRow past r.columns.displayed n)
  | sent (phase : now.phase = .latch) (dark : ∀ n, r.levels (.row n) = .low)
      (bank : Bank rows cols) (source : sentBank? past = some bank)
      (pending : r.columns.pending = bank[now.row].sent)
  | shown (phase : now.phase = .reset ∨ now.phase = .select)
      (dark : ∀ n, r.levels (.row n) = .low)
      (bank : Bank rows cols) (source : sentBank? past = some bank)
      (pending : r.columns.pending = []) (displayed : r.columns.displayed = bank[now.row].sent)

/-- What holds between two moments. -/
structure Steady (wiring : Wiring) (past : List (Event leds rows cols))
    (now : Controller leds rows cols) (r : Receiver) : Prop where
  quiet : r.Quiet
  pins : ∀ n, r.levels (.row n) = .high → wiring.hasPin (.row n) = true
  stage : Stage past now r

variable {wiring : Wiring} {past : List (Event leds rows cols)} {now : Controller leds rows cols}
  {r : Receiver}

theorem trace_step (now : Controller leds rows cols) :
    (Moment.ofStep now).trace = now.step.2.flatMap Instruction.signals := by
  simp [Moment.trace, run_step, emit]

/-- Until a tick lights its row, it raises no row line. -/
theorem not_raised_of_step (hp : now.phase ≠ .select) (n : UInt8) :
    .drive (.row n) .high ∉ (Moment.ofStep now).trace := by
  intro raised
  rw [trace_step] at raised
  obtain ⟨i, hi, hs⟩ := List.mem_flatMap.mp raised
  refine Instruction.not_raised (fun row he => ?_) hs
  subst he
  unfold step at hi
  split at hi
  · rw [Mailbox.carryOut_eq] at hi
    obtain ⟨command, -, he⟩ := List.mem_map.mp hi
    cases command <;> cases he
  · simp at hi
  · simp at hi
  · simp at hi
  · rename_i select
    exact hp select

theorem readings_idle (hp : now.phase = .idle) {reading : Reading}
    (h : reading ∈ now.step.2.flatMap Instruction.readings) :
    reading.latched ≠ 1 ∧ reading.latched ≠ 3 := by
  rw [step_of_idle hp] at h
  obtain ⟨i, hi, hreading⟩ := List.mem_flatMap.mp h
  obtain ⟨command, -, rfl⟩ := List.mem_map.mp hi
  cases command with
  | setGain gain =>
    rcases List.mem_cons.mp hreading with rfl | hreading
    · exact ⟨by simp, by simp⟩
    · rw [List.mem_singleton.mp hreading]
      exact ⟨by simp, by simp⟩
  | setOutput on => cases hreading

theorem readings_transfer (hp : now.phase = .transfer) :
    now.step.2.flatMap Instruction.readings = (Instruction.shift now.active[now.row]).readings := by
  simp only [step, hp]
  exact List.append_nil _

/-! ## Within a moment -/

theorem ShowsRow.append {news : List (Event leds rows cols)} {displayed : List (Primary → UInt16)}
    {n : UInt8} (h : ShowsRow past displayed n) (hnews : ∀ e ∈ news, e.raises n = false) :
    ShowsRow (past ++ news) displayed n := by
  obtain ⟨hn, bank, source, shown⟩ := h
  exact ⟨hn, bank, (litBank?_of_not_raised hnews).trans source, shown⟩

theorem Steady.of_high (h : Steady wiring past now r) {n : UInt8} (hn : r.levels (.row n) = .high) :
    (now.phase = .idle ∨ now.phase = .transfer) ∧ ShowsRow past r.columns.displayed n := by
  cases h.stage with
  | lit phase _ shows => exact ⟨phase, shows n hn⟩
  | sent _ dark _ _ _ | shown _ dark _ _ _ _ =>
    rw [dark n] at hn
    cases hn

variable {sent : Trace} {n : UInt8}

/-- Before the row is lit, a row that is high was high, and still shows the same. -/
theorem shows_of_step (h : Steady wiring past now r) (hp : now.phase ≠ .select)
    (hsent : sent <+: wiring.carryAll (Moment.ofStep now).trace)
    (hn : (r.feedAll sent).levels (.row n) = .high) :
    ShowsRow (past ++ sent.map (⟨·, some (.ofStep now)⟩)) (r.feedAll sent).columns.displayed n := by
  have notRaised := Wiring.not_raised (not_raised_of_step hp n) hsent
  rw [Receiver.levels_feedAll] at hn
  obtain ⟨phase, shows⟩ := h.of_high (Levels.row_high_of_after notRaised hn)
  -- a row is high only while commands or a row are sent, and neither changes what is shown
  have noThree : ∀ reading ∈ now.step.2.flatMap Instruction.readings, reading.latched ≠ 3 := by
    intro reading hr
    rcases phase with idle | transfer
    · exact (readings_idle idle hr).2
    · rw [readings_transfer transfer] at hr
      obtain ⟨_, _, rfl⟩ := List.mem_map.mp hr
      exact nofun
  rw [trace_step] at hsent
  rw [Receiver.displayed_of_prefix (Receiver.feedAll_sent wiring _ h.quiet).2 noThree hsent]
  refine shows.append fun e he => ?_
  obtain ⟨s, hs, rfl⟩ := List.mem_map.mp he
  exact decide_eq_false fun raised => notRaised (raised ▸ hs)

theorem trace_select (hp : now.phase = .select) :
    (Moment.ofStep now).trace = [.drive (.row now.scanner.line) .high] := by
  rw [trace_step, step, hp]
  rfl

/-- Lighting the row shows what was sent and latched before. -/
theorem shows_of_select (h : Steady wiring past now r) (hp : now.phase = .select)
    (hsent : sent <+: wiring.carryAll (Moment.ofStep now).trace)
    (hn : (r.feedAll sent).levels (.row n) = .high) :
    ShowsRow (past ++ sent.map (⟨·, some (.ofStep now)⟩)) (r.feedAll sent).columns.displayed n := by
  cases h.stage with
  | lit phase | sent phase => simp [hp] at phase
  | shown _ dark bank source _ displayed =>
    rw [trace_select hp] at hsent
    rcases Wiring.prefix_carryAll_drive hsent with rfl | rfl
    · rw [Receiver.feedAll_nil, dark n] at hn
      cases hn
    · rw [Receiver.feedAll_of_touches (by simp [Signal.touches]) (by simp [Signal.touches])] at hn ⊢
      have line : n = now.scanner.line := by
        by_contra other
        have kept : r.levels.after [.drive (.row now.scanner.line) .high] (.row n) =
            r.levels (.row n) := Function.update_of_ne (by simpa using other) ..
        have low := kept.trans (dark n)
        exact absurd (low.symm.trans hn) (by decide)
      have row : n.toNat = now.row.val := by rw [line, toNat_line]
      refine ⟨row ▸ now.row.isLt, bank, ?_, displayed.trans (by simp [row])⟩
      have raised : (⟨.drive (.row now.scanner.line) .high, some (.ofStep now)⟩ :
          Event leds rows cols).raises n = true := by simp [Event.raises, line]
      refine (litBank?_raised raised).trans ((sentBank?_of_none ?_).trans source)
      simp [Event.bank?, Moment.runs, hp]

/-- Cut anywhere within a moment, a row that is high shows its own data. -/
theorem shows_within {m : Moment leds rows cols} (h : Steady wiring past m.before r)
    (hstep : m.action ≠ .step → m.isCall = true) (hsent : sent <+: wiring.carryAll m.trace)
    (hn : (r.feedAll sent).levels (.row n) = .high) :
    ShowsRow (past ++ sent.map (⟨·, some m⟩)) (r.feedAll sent).columns.displayed n := by
  obtain ⟨now, a⟩ := m
  by_cases ha : a = .step
  · subst ha
    by_cases hp : now.phase = .select
    · exact shows_of_select h hp hsent hn
    · exact shows_of_step h hp hsent hn
  · rw [trace_of_isCall (hstep ha)] at hsent
    obtain rfl := List.prefix_nil.mp hsent
    rw [List.map_nil, List.append_nil]
    exact (h.of_high hn).2

/-! ## From moment to moment -/

theorem pins_feedAll {trace : Trace}
    (h : ∀ n, r.levels (.row n) = .high → wiring.hasPin (.row n) = true) (n : UInt8)
    (hn : (r.feedAll (wiring.carryAll trace)).levels (.row n) = .high) :
    wiring.hasPin (.row n) = true := by
  by_cases raised : .drive (.row n) .high ∈ wiring.carryAll trace
  · exact (Wiring.mem_carryAll_drive (by simp) raised).2
  · rw [Receiver.levels_feedAll] at hn
    exact h n (Levels.row_high_of_after raised hn)

/-- A step that lights no row leaves the rows dark if they were. -/
theorem dark_of_step (hp : now.phase ≠ .select) (dark : ∀ n, r.levels (.row n) = .low) (n : UInt8) :
    (r.feedAll (wiring.carryAll (Moment.ofStep now).trace)).levels (.row n) = .low := by
  have notRaised :=
    Wiring.not_raised (not_raised_of_step hp n) (List.prefix_refl (wiring.carryAll _))
  rw [Receiver.levels_feedAll]
  exact Levels.row_low_of_after notRaised (dark n)

/-- A transfer turns off whatever row was lit. -/
theorem dark_of_transfer (h : Steady wiring past now r) (hp : now.phase = .transfer) (n : UInt8) :
    (r.feedAll (wiring.carryAll (Moment.ofStep now).trace)).levels (.row n) = .low := by
  have waits : now.phase ≠ .select := by simp [hp]
  have notRaised :=
    Wiring.not_raised (not_raised_of_step waits n) (List.prefix_refl (wiring.carryAll _))
  rw [Receiver.levels_feedAll]
  cases was : r.levels (.row n) with
  | low => exact Levels.row_low_of_after notRaised was
  | high =>
    -- a row that was lit is in the grid and has a pin, so it is among those turned off
    obtain ⟨hn, _⟩ := (h.of_high was).2
    have off : .drive (.row n) .low ∈ (Moment.ofStep now).trace := by
      rw [trace_of_transfer (by simp [Moment.runs, hp])]
      exact List.mem_append_left _ (Instruction.lowered_of_rowsOff hn)
    exact Levels.row_low_of_mem notRaised (Wiring.mem_carryAll_of_hasPin off (h.pins n was))

theorem bank?_of_transfer (hp : now.phase = .transfer) :
    ∀ e ∈ (Moment.ofStep now).events wiring, e.bank? = some now.active := by
  intro e he
  obtain ⟨s, -, rfl⟩ := List.mem_map.mp he
  simp [Event.bank?, Moment.runs, hp]

theorem bank?_of_ne (hp : now.phase ≠ .transfer) :
    ∀ e ∈ (Moment.ofStep now).events wiring, e.bank? = none := by
  intro e he
  obtain ⟨s, -, rfl⟩ := List.mem_map.mp he
  simp [Event.bank?, Moment.runs, hp]

/-- What a step does to the columns. -/
theorem columns_of_step (now : Controller leds rows cols) (wiring : Wiring) (h : r.Quiet) :
    (r.feedAll (wiring.carryAll (Moment.ofStep now).trace)).columns =
      (now.step.2.flatMap Instruction.readings).foldl Columns.read r.columns := by
  rw [trace_step]
  exact Receiver.columns_of_readings (Receiver.feedAll_sent wiring _ h).2

theorem phase_step_of {phase : Phase} (hp : now.phase = phase) : now.step.1.phase = phase.next := by
  rw [phase_step, hp]

theorem row_step (hp : now.phase ≠ .select) : now.step.1.row = now.row := by
  unfold step
  split
  · unfold beginTick
    dsimp only
    split <;> rfl
  · rfl
  · rfl
  · rfl
  · rename_i select
    exact absurd select hp

section Phases

variable (wiring past r) in
/-- The stage that a step leads to. -/
abbrev StageNext (now : Controller leds rows cols) : Prop :=
  Stage (past ++ (Moment.ofStep now).events wiring) now.step.1
    (r.feedAll (wiring.carryAll (Moment.ofStep now).trace))

theorem stage_of_idle (h : Steady wiring past now r) (hp : now.phase = .idle)
    (pending : r.columns.pending = []) : StageNext wiring past r now := by
  have same := columns_of_step now wiring h.quiet
  rw [Columns.foldl_of_control fun _ => readings_idle hp] at same
  refine .lit (.inr (phase_step_of hp)) (by rw [same, pending]) fun n hn => ?_
  exact shows_of_step h (by simp [hp]) (List.prefix_refl _) hn

theorem events_of_transfer (hp : now.phase = .transfer) :
    (Moment.ofStep now).events wiring ≠ [] := by
  intro none
  have latch : (⟨.drive .latch .low, some (.ofStep now)⟩ : Event leds rows cols) ∈
      (Moment.ofStep now).events wiring := by
    refine List.mem_map.mpr ⟨_, List.mem_flatMap.mpr ⟨.drive .latch .low, ?_, ?_⟩, rfl⟩
    · rw [trace_of_transfer (by simp [Moment.runs, hp])]
      simp [transferTrace, Instruction.signals, Burst.opening]
    · cases wiring <;> exact List.mem_singleton_self _
  rw [none] at latch
  cases latch

theorem stage_of_transfer (h : Steady wiring past now r) (hp : now.phase = .transfer)
    (pending : r.columns.pending = []) : StageNext wiring past r now := by
  have row := now.row_step (by simp [hp])
  refine .sent (phase_step_of hp) (dark_of_transfer h hp) now.active ?_ ?_
  · exact sentBank?_of_some (events_of_transfer hp) (bank?_of_transfer hp)
  · rw [columns_of_step now wiring h.quiet, readings_transfer hp, Instruction.readings,
      Columns.read_columns, pending]
    simp only [row]
    rfl

theorem stage_of_latch (h : Steady wiring past now r) (hp : now.phase = .latch)
    (dark : ∀ n, r.levels (.row n) = .low) {bank : Bank rows cols}
    (source : sentBank? past = some bank)
    (pending : r.columns.pending = bank[now.row].sent) : StageNext wiring past r now := by
  have row := now.row_step (by simp [hp])
  have columns := columns_of_step now wiring h.quiet
  have latched : now.step.2.flatMap Instruction.readings = [⟨3, none⟩] := by
    rw [step, hp]
    rfl
  rw [latched] at columns
  refine .shown (.inl (phase_step_of hp)) (dark_of_step (by simp [hp]) dark) bank ?_ ?_ ?_
  · exact (sentBank?_of_none (bank?_of_ne (by simp [hp]))).trans source
  · rw [columns]
    rfl
  · rw [columns]
    simp only [row]
    exact pending

theorem stage_of_reset (h : Steady wiring past now r) (hp : now.phase = .reset)
    (dark : ∀ n, r.levels (.row n) = .low) {bank : Bank rows cols}
    (source : sentBank? past = some bank)
    (pending : r.columns.pending = []) (displayed : r.columns.displayed = bank[now.row].sent) :
    StageNext wiring past r now := by
  have row := now.row_step (by simp [hp])
  have counted : now.step.2.flatMap Instruction.readings = [⟨13, none⟩] := by
    rw [step, hp]
    rfl
  have same := columns_of_step now wiring h.quiet
  rw [counted, Columns.foldl_of_control (by simp)] at same
  refine .shown (.inr (phase_step_of hp)) (dark_of_step (by simp [hp]) dark) bank ?_ ?_ ?_
  · exact (sentBank?_of_none (bank?_of_ne (by simp [hp]))).trans source
  · rw [same, pending]
  · rw [same, displayed]
    simp only [row]

theorem stage_of_select (h : Steady wiring past now r) (hp : now.phase = .select)
    (pending : r.columns.pending = []) : StageNext wiring past r now := by
  have nothing : now.step.2.flatMap Instruction.readings = [] := by
    rw [step, hp]
    rfl
  have same := columns_of_step now wiring h.quiet
  rw [nothing, List.foldl_nil] at same
  refine .lit (.inl (phase_step_of hp)) (by rw [same, pending]) fun n hn => ?_
  exact shows_of_select h hp (List.prefix_refl _) hn

end Phases

/-- Every phase hands the row on to the next. -/
theorem steady_step (h : Steady wiring past now r) :
    Steady wiring (past ++ (Moment.ofStep now).events wiring) now.step.1
      (r.feedAll (wiring.carryAll (Moment.ofStep now).trace)) := by
  refine ⟨?_, pins_feedAll h.pins, ?_⟩
  · rw [trace_step]
    exact (Receiver.feedAll_sent wiring _ h.quiet).1
  · cases h.stage with
    | lit phase pending shows =>
      rcases phase with hp | hp
      · exact stage_of_idle h hp pending
      · exact stage_of_transfer h hp pending
    | sent hp dark bank source pending => exact stage_of_latch h hp dark source pending
    | shown phase dark bank source pending displayed =>
      rcases phase with hp | hp
      · exact stage_of_reset h hp dark source pending displayed
      · exact stage_of_select h hp pending

theorem scanner_of_call {call : Call} {next : Controller leds rows cols}
    (h : now.call call = .ok next) : next.scanner = now.scanner := by
  cases call with
  | flush | fill color =>
    cases h
    rfl
  | setColor index color =>
    simp only [Controller.call, Except.map] at h
    split at h
    · cases h
    · cases h
      rfl
  | setGain gain | setOutput on =>
    simp only [Controller.call, post, Except.map] at h
    split at h
    · cases h
    · cases h
      rfl

theorem scanner_run_call (now : Controller leds rows cols) (call : Call) :
    (now.run [.call call]).1.scanner = now.scanner := by
  cases h : now.call call with
  | error _ => rw [run_of_error h]
  | ok next => rw [run_of_ok h, scanner_of_call h]

/-- A call changes nothing that the lit row depends on. -/
theorem steady_call (h : Steady wiring past now r) (call : Call) :
    Steady wiring past (now.run [.call call]).1 r := by
  have same := scanner_run_call now call
  generalize (now.run [.call call]).1 = next at same
  obtain ⟨_, _, scanner, _⟩ := next
  obtain ⟨_, _, _, _⟩ := now
  dsimp only at same
  subst same
  refine ⟨h.quiet, h.pins, ?_⟩
  cases h.stage with
  | lit phase pending shows => exact .lit phase pending shows
  | sent phase dark bank source pending => exact .sent phase dark bank source pending
  | shown phase dark bank source pending displayed =>
    exact .shown phase dark bank source pending displayed

end Controller

end LedMatrix

import LedMatrix.Proofs.CommandOrder
import LedMatrix.Proofs.Interleaving
import LedMatrix.Proofs.RowLines
import LedMatrix.Proofs.ScanOrder

/-! # The lines heal

Whoever drives the lines past the controller disturbs the lines only: no reply,
no state and no later step depends on it. And a transfer drives every line that
the scan relies on, whatever it carried before. So after one whole tick that is
left alone, these lines are where they would have been anyway. -/

namespace LedMatrix

variable {leds rows cols : Nat}

namespace Controller

variable {c now : Controller leds rows cols} {a : Action}

/-! ## Nothing but the lines is disturbed -/

/-- The actions that go through the controller. -/
def undisturbed (actions : List Action) : List Action := actions.filter fun a => !a.isDirect

theorem undisturbed_direct (h : a.isDirect = true) (rest : List Action) :
    undisturbed (a :: rest) = undisturbed rest := List.filter_cons_of_neg (by simp [h])

theorem undisturbed_other (h : a.isDirect = false) (rest : List Action) :
    undisturbed (a :: rest) = a :: undisturbed rest := List.filter_cons_of_pos (by simp [h])

theorem run_direct (c : Controller leds rows cols) (h : a.isDirect = true) :
    (c.run [a]).1 = c := by
  cases a with
  | drive _ _ | present _ => rfl
  | call _ | step | tick => cases h

theorem run_undisturbed (c : Controller leds rows cols) (actions : List Action) :
    (c.run (undisturbed actions)).1 = (c.run actions).1 := by
  induction actions generalizing c with
  | nil => rfl
  | cons a rest ih =>
    rw [run_cons c a rest]
    cases direct : a.isDirect with
    | true => rw [undisturbed_direct direct, ih, run_direct c direct]
    | false => rw [undisturbed_other direct, run_cons, ih]

theorem replies_direct (c : Controller leds rows cols) (h : a.isDirect = true)
    (rest : List Action) : c.replies (a :: rest) = c.replies rest := by
  cases a with
  | drive _ _ | present _ => rfl
  | call _ | step | tick => cases h

theorem replies_undisturbed (c : Controller leds rows cols) (actions : List Action) :
    c.replies (undisturbed actions) = c.replies actions := by
  induction actions generalizing c with
  | nil => rfl
  | cons a rest ih =>
    cases direct : a.isDirect with
    | true => rw [undisturbed_direct direct, ih, replies_direct c direct]
    | false =>
      rw [undisturbed_other direct]
      cases a with
      | drive _ _ | present _ => cases direct
      | call call => rw [replies, replies, ih]
      | step | tick => simp only [replies, ih]

/-- A tick has no piece that drives the lines past the controller. -/
theorem isDirect_of_pieces (h : a.isDirect = false) {m : Moment leds rows cols}
    (hm : m ∈ c.momentsOf (c.pieces a)) : m.action.isDirect = false := by
  rcases (mem_pieces (mem_momentsOf hm)).2 with same | step
  · rw [same, h]
  · rw [step]
    rfl

theorem history_undisturbed (c : Controller leds rows cols) (actions : List Action) :
    c.history (undisturbed actions) =
      (c.history actions).filter fun m => !m.action.isDirect := by
  induction actions generalizing c with
  | nil => rfl
  | cons a rest ih =>
    rw [history_cons c a rest, List.filter_append]
    cases direct : a.isDirect with
    | true =>
      have piece : c.pieces a = [a] := by
        cases a with
        | drive _ _ | present _ => rfl
        | call _ | step | tick => cases direct
      rw [undisturbed_direct direct, ih, run_direct c direct, piece]
      simp [momentsOf, direct]
    | false =>
      have all : (c.momentsOf (c.pieces a)).filter (fun m => !m.action.isDirect) =
          c.momentsOf (c.pieces a) :=
        List.filter_eq_self.mpr fun m hm => by rw [isDirect_of_pieces direct hm]; rfl
      rw [undisturbed_other direct, history_cons, ih, all]

end Controller

/-! ## The data lines -/

/-- The data lines carry a word. -/
def Levels.Carry (levels : Levels) (word : Word) : Prop :=
  ∀ p, levels (.data p) = .ofBool (word.carries p)

/-- No signal drives a data line. -/
def Trace.KeepsData (trace : Trace) : Prop := ∀ s ∈ trace, ∀ p, s.touches (.data p) = false

section Data

variable {wiring : Wiring} {levels : Levels} {trace : Trace} {word : Word}

theorem Trace.KeepsData.carryAll (h : trace.KeepsData) (wiring : Wiring) :
    Trace.KeepsData (wiring.carryAll trace) := by
  intro s hs p
  obtain ⟨source, hsource, hcarry⟩ := List.mem_flatMap.mp hs
  have untouched := h source hsource p
  cases source with
  | present _ => cases untouched
  | drive line level =>
    rw [Wiring.carry_drive] at hcarry
    split at hcarry
    · rw [List.mem_singleton.mp hcarry]
      exact untouched
    · cases hcarry
  | timerPeriod _ | timerOn =>
    have same : s.touches (.data p) = false := by
      cases wiring <;> · rw [List.mem_singleton.mp hcarry]; rfl
    exact same

theorem Levels.Carry.after (h : levels.Carry word) (keeps : trace.KeepsData) :
    (levels.after (wiring.carryAll trace)).Carry word := by
  intro p
  rw [Levels.after_of_touches fun s hs => keeps.carryAll wiring s hs p]
  exact h p

/-- After a word is presented, the data lines carry it until they are driven again. -/
theorem Levels.carry_of_present (levels : Levels) (wiring : Wiring) (earlier : Trace)
    (keeps : trace.KeepsData) :
    (levels.after (wiring.carryAll (earlier ++ .present word :: trace))).Carry word := by
  have presented (before : Levels) :
      (before.after (wiring.carryAll [.present word])).Carry word := by
    intro p
    rw [Wiring.carryAll, List.flatMap_singleton, Wiring.after_carry_present]
    rfl
  rw [List.append_cons, Wiring.carryAll_append, Wiring.carryAll_append, Levels.after_append,
    Levels.after_append]
  exact (presented _).after keeps

/-- A burst without data leaves the data lines alone. -/
theorem Burst.keepsData {burst : Burst} (h : burst.data = none) :
    Trace.KeepsData (Burst.opening ++ burst.signals) := by
  have cycles (i : Fin 16) : Trace.KeepsData (burst.cycle i) := by
    by_cases raise : i.val + burst.latched = 16 <;>
      simp [Burst.cycle, h, raise, Burst.pulse, Trace.KeepsData, Signal.touches]
  intro s hs p
  simp only [Burst.signals, List.mem_append, List.mem_flatMap, List.mem_singleton] at hs
  rcases hs with opens | ⟨i, -, hi⟩ | rfl
  · simp only [Burst.opening, List.mem_cons, List.not_mem_nil, or_false] at opens
    rcases opens with rfl | rfl <;> rfl
  · exact cycles i s hi p
  · rfl

/-- The last word of a column is presented before its last clock. -/
theorem Burst.signals_column (planes : Planes) :
    ∃ earlier later, (Burst.column planes).signals = earlier ++ .present planes[15] :: later ∧
      Trace.KeepsData later := by
  refine ⟨(List.finRange 15).flatMap fun i => (Burst.column planes).cycle i.castSucc,
    [.drive .latch .high, .drive .clock .high, .drive .clock .low, .drive .latch .low], ?_, ?_⟩
  · rw [Burst.signals, List.finRange_succ_last, List.flatMap_append, List.flatMap_map,
      List.flatMap_singleton]
    simp [Burst.cycle, Burst.column, Burst.pulse]
  · simp [Trace.KeepsData, Signal.touches]

/-- The last word of a row is that of its first column on the last plane. -/
theorem Instruction.signals_shift (row : Row cols) (h : 0 < cols) :
    ∃ word earlier later, row.word? 0 15 = some word ∧
      (Instruction.shift row).signals = earlier ++ .present word :: later ∧
        Trace.KeepsData later := by
  obtain ⟨planes, rest, columns⟩ : ∃ planes rest, row.channels.toList = planes :: rest :=
    List.exists_cons_of_length_pos (by simpa using h)
  have first : row.channels[0]? = some planes := by
    rw [← Vector.getElem?_toList, columns]
    rfl
  obtain ⟨earlier, later, split, keeps⟩ := Burst.signals_column planes
  refine ⟨planes[15], Burst.opening ++
    (rest.reverse.flatMap fun planes => (Burst.column planes).signals) ++ earlier, later,
    ?_, ?_, keeps⟩
  · simp [Row.word?, Row.channel?, first]
  · rw [Instruction.signals, columns, List.reverse_cons, List.flatMap_append,
      List.flatMap_singleton, split]
    simp only [List.append_assoc]

end Data

/-! ## What a transfer settles -/

/-- The transfers among some moments. -/
def transfersOf (past : List (Moment leds rows cols)) : List (Moment leds rows cols) :=
  past.filter (Moment.runs .transfer)

/-- The data lines carry the last word of the row that a moment sent. -/
def HoldsLast (sent : Moment leds rows cols) (levels : Levels) : Prop :=
  0 < cols → ∃ word, sent.before.scanner.current.word? 0 15 = some word ∧ levels.Carry word

/-- What the lines carry once a moment has sent a row and that row is lit. -/
structure Settled (wiring : Wiring) (sent : Moment leds rows cols) (levels : Levels) : Prop where
  clock : levels .clock = .low
  latch : levels .latch = .low
  lit : ∀ n, Lit wiring rows levels n ↔
    n.toNat = sent.before.row.val ∧ wiring.hasPin (.row n) = true
  data : HoldsLast sent levels

/-- The lines that a scan settles on a board. -/
def Wiring.Settles (wiring : Wiring) (rows cols : Nat) : Line → Prop
  | .clock | .latch => True
  | .outputEnable => False
  | .data _ => 0 < cols
  | .row n => n.toNat < rows ∧ wiring.hasPin (.row n) = true

/-- Where the same moment has settled the lines, they carry the same. -/
theorem Settled.agree {wiring : Wiring} {sent : Moment leds rows cols} {levels other : Levels}
    (h : Settled wiring sent levels) (h' : Settled wiring sent other) {line : Line}
    (settles : wiring.Settles rows cols line) : levels line = other line := by
  cases line with
  | clock => rw [h.clock, h'.clock]
  | latch => rw [h.latch, h'.latch]
  | outputEnable => cases settles
  | data p =>
    obtain ⟨word, last, carries⟩ := h.data settles
    obtain ⟨word', last', carries'⟩ := h'.data settles
    obtain rfl : word = word' := Option.some.inj (last.symm.trans last')
    rw [carries p, carries' p]
  | row n =>
    obtain ⟨inGrid, pin⟩ := settles
    have same : Lit wiring rows levels n ↔ Lit wiring rows other n :=
      (h.lit n).trans (h'.lit n).symm
    cases level : levels (.row n) with
    | high => exact (same.mp ⟨inGrid, pin, level⟩).high.symm
    | low =>
      cases level' : other (.row n) with
      | low => rfl
      | high =>
        have high := (same.mpr ⟨inGrid, pin, level'⟩).high
        rw [level] at high
        cases high

namespace Controller

/-- What the lines carry between two moments since a moment sent a row. -/
structure Settling (wiring : Wiring) (sent : Moment leds rows cols)
    (now : Controller leds rows cols) (r : Receiver) : Prop where
  quiet : r.Quiet
  dark : now.phase.isDark = true → now.row = sent.before.row ∧ ∀ n, ¬Lit wiring rows r.levels n
  lit : now.phase.isDark = false → ∀ n, Lit wiring rows r.levels n ↔
    n.toNat = sent.before.row.val ∧ wiring.hasPin (.row n) = true
  data : now.phase ≠ .transfer → HoldsLast sent r.levels

variable {wiring : Wiring} {past : List (Moment leds rows cols)} {sent : Moment leds rows cols}
  {now : Controller leds rows cols} {r : Receiver}

theorem Settling.settled (h : Settling wiring sent now r) (hp : now.phase = .idle) :
    Settled wiring sent r.levels :=
  ⟨h.quiet.clock, h.quiet.latch, h.lit (by rw [hp]; rfl), h.data (by rw [hp]; decide)⟩

/-! ### One moment -/

/-- The receiver after a step. -/
abbrev stepped (wiring : Wiring) (now : Controller leds rows cols) (r : Receiver) : Receiver :=
  r.feedAll (wiring.carryAll (Moment.ofStep now).trace)

/-- Whatever the lines carried, a transfer settles clock, latch, rows and data. -/
theorem settling_transfer (hp : now.phase = .transfer) :
    Settling wiring (.ofStep now) now.step.1 (stepped wiring now r) := by
  have trace := trace_of_transfer (m := .ofStep now) (by simp [Moment.runs, hp])
  have next := phase_step_of hp
  refine ⟨?_, ?_, ?_, ?_⟩
  · rw [stepped, trace, transferTrace, Wiring.carryAll_append, Receiver.feedAll_append]
    exact Receiver.quiet_of_opened wiring rfl _
  · intro _
    refine ⟨row_step (by simp [hp]), fun n => ?_⟩
    rw [stepped, Receiver.levels_feedAll, trace, transferTrace, Wiring.carryAll_append]
    exact not_lit_of_sending (List.prefix_refl _) n
  · intro isDark
    rw [next] at isDark
    cases isDark
  · intro _ wide
    obtain ⟨word, earlier, later, last, split, keeps⟩ :=
      Instruction.signals_shift now.scanner.current wide
    refine ⟨word, last, ?_⟩
    rw [stepped, Receiver.levels_feedAll, trace, transferTrace]
    -- the first column is sent last, and no word follows its last plane
    have signals : (Instruction.rowsOff rows : Instruction cols).signals ++
        (Instruction.shift now.scanner.current).signals =
          ((Instruction.rowsOff rows : Instruction cols).signals ++ earlier) ++
            .present word :: later := by rw [split, List.append_assoc]
    exact signals ▸ Levels.carry_of_present _ wiring _ keeps

theorem quiet_step (wiring : Wiring) (h : r.Quiet) (now : Controller leds rows cols) :
    (stepped wiring now r).Quiet := by
  rw [stepped, trace_step]
  exact (Receiver.feedAll_sent wiring _ h).1

/-- Commands leave the row lines alone. -/
theorem lit_idle_iff (hp : now.phase = .idle) (n : UInt8) :
    Lit wiring rows (stepped wiring now r).levels n ↔ Lit wiring rows r.levels n := by
  have untouched : ∀ s ∈ wiring.carryAll (Moment.ofStep now).trace,
      s.touches (.row n) = false := by
    intro s hs
    cases s with
    | present _ | timerPeriod _ | timerOn => rfl
    | drive line level =>
      refine decide_eq_false fun row => ?_
      subst row
      exact row_not_mem_of_idle (by simp [Moment.runs, hp]) wiring n level hs
  have same : (stepped wiring now r).levels (.row n) = r.levels (.row n) := by
    rw [stepped, Receiver.levels_feedAll]
    exact Levels.after_of_touches untouched
  exact ⟨fun lit => ⟨lit.inGrid, lit.pin, same ▸ lit.high⟩,
    fun lit => ⟨lit.inGrid, lit.pin, same.trans lit.high⟩⟩

/-- After the transfer a tick sends no more words. -/
theorem keepsData_step (hp : now.phase.isDark = true) : (Moment.ofStep now).trace.KeepsData := by
  rw [trace_step, step]
  cases phase : now.phase with
  | idle | transfer =>
    rw [phase] at hp
    cases hp
  | latch =>
    simp only [List.flatMap_singleton]
    exact Burst.keepsData rfl
  | reset =>
    simp only [List.flatMap_singleton]
    exact Burst.keepsData rfl
  | select => simp [Instruction.signals, Trace.KeepsData, Signal.touches]

theorem holdsLast_step (h : HoldsLast sent r.levels) (hp : now.phase.isDark = true) :
    HoldsLast sent (stepped wiring now r).levels := by
  intro wide
  obtain ⟨word, last, carries⟩ := h wide
  refine ⟨word, last, ?_⟩
  rw [stepped, Receiver.levels_feedAll]
  exact carries.after (keepsData_step hp)

section Phases

variable (h : Settling wiring sent now r)

include h

/-- The commands of the next tick may change what the data lines carry, and nothing else. -/
theorem settling_idle (hp : now.phase = .idle) :
    Settling wiring sent now.step.1 (stepped wiring now r) := by
  have next : now.step.1.phase = .transfer := phase_step_of hp
  refine ⟨quiet_step wiring h.quiet now, fun isDark => ?_, fun _ n => ?_, absurd next⟩
  · rw [next] at isDark
    cases isDark
  · rw [lit_idle_iff hp, h.lit (by rw [hp]; rfl)]

/-- Until the row is lit, all rows stay off. -/
theorem settling_dark (hp : now.phase.isDark = true) (waits : now.phase ≠ .select)
    (next : now.step.1.phase.isDark = true) :
    Settling wiring sent now.step.1 (stepped wiring now r) := by
  obtain ⟨row, dark⟩ := h.dark hp
  have sending : now.phase ≠ .transfer := by
    intro transfer
    rw [transfer] at hp
    cases hp
  refine ⟨quiet_step wiring h.quiet now, fun _ => ⟨(row_step waits).trans row, fun n => ?_⟩,
    fun light => ?_, fun _ => holdsLast_step (h.data sending) hp⟩
  · rw [stepped, Receiver.levels_feedAll]
    exact not_lit_after dark
      (fun n => Wiring.not_raised (not_raised_of_step waits n) (List.prefix_refl _)) n
  · rw [next] at light
    cases light

theorem settling_select (hp : now.phase = .select) :
    Settling wiring sent now.step.1 (stepped wiring now r) := by
  have isDark : now.phase.isDark = true := by rw [hp]; rfl
  obtain ⟨row, dark⟩ := h.dark isDark
  have next : now.step.1.phase = .idle := phase_step_of hp
  have holds : HoldsLast sent r.levels := h.data (by simp [hp])
  refine ⟨quiet_step wiring h.quiet now, fun isDark => ?_, fun _ n => ?_,
    fun _ => holdsLast_step holds isDark⟩
  · rw [next] at isDark
    cases isDark
  · rw [stepped, Receiver.levels_feedAll, lit_select_iff dark hp, row]

end Phases

/-- The later steps of the tick, and the commands of the next, keep what was settled. -/
theorem Settling.step (h : Settling wiring sent now r) (hp : now.phase ≠ .transfer) :
    Settling wiring sent now.step.1 (stepped wiring now r) := by
  cases phase : now.phase with
  | transfer => exact absurd phase hp
  | idle => exact settling_idle h phase
  | latch | reset =>
    have next := phase_step_of phase
    exact settling_dark h (by rw [phase]; rfl) (by simp [phase]) (by rw [next]; rfl)
  | select => exact settling_select h phase

/-! ### Runs -/

/-- What was sent last has settled the lines, if anything was sent. -/
def Heals (wiring : Wiring) (r : Receiver) (past : List (Moment leds rows cols))
    (now : Controller leds rows cols) : Prop :=
  ∀ sent, (transfersOf past).getLast? = some sent →
    Settling wiring sent now (r.feedAll (wiring.carryAll (past.flatMap Moment.trace)))

theorem getLast?_transfersOf (past : List (Moment leds rows cols)) (m : Moment leds rows cols) :
    (transfersOf (past ++ [m])).getLast? =
      if m.runs .transfer = true then some m else (transfersOf past).getLast? := by
  by_cases hm : m.runs .transfer = true
  · simp [transfersOf, hm]
  · simp [transfersOf, hm]

theorem Heals.step (h : Heals wiring r past now) :
    Heals wiring r (past ++ [.ofStep now]) now.step.1 := by
  intro sent last
  rw [List.flatMap_append, List.flatMap_singleton, Wiring.carryAll_append, Receiver.feedAll_append]
  rw [getLast?_transfersOf] at last
  by_cases hp : now.phase = .transfer
  · rw [if_pos (by simp [Moment.runs, hp])] at last
    obtain rfl := Option.some.inj last
    exact settling_transfer hp
  · rw [if_neg (by simp [Moment.runs, hp])] at last
    exact (h sent last).step hp

theorem Heals.call (h : Heals wiring r past now) (call : Call) :
    Heals wiring r (past ++ [⟨now, .call call⟩]) (now.run [.call call]).1 := by
  intro sent last
  have silent : (⟨now, .call call⟩ : Moment leds rows cols).trace = [] := trace_of_isCall rfl
  rw [List.flatMap_append, List.flatMap_singleton, silent, List.append_nil]
  rw [getLast?_transfersOf, if_neg (by simp [Moment.runs])] at last
  have before := h sent last
  have same := sameCursor_run_call now call
  refine ⟨before.quiet, ?_, ?_, ?_⟩
  · rw [same.phase, same.row]
    exact before.dark
  · rw [same.phase]
    exact before.lit
  · rw [same.phase]
    exact before.data

/-- Whatever the lines carried at first, every transfer settles them, until the next. -/
theorem heals_run {actions : List Action} (c : Controller leds rows cols)
    (hdirect : ∀ a ∈ actions, a.isDirect = false) (wiring : Wiring) (r : Receiver) :
    Heals wiring r (c.history actions) (c.run actions).1 := by
  have keeps : Keeps actions fun past (now : Controller leds rows cols) =>
      Heals wiring r past now :=
    keeps_of_step_call hdirect (fun _ _ h => h.step) fun _ _ call h => h.call call
  refine keeps.run fun sent last => ?_
  have none : (transfersOf ([] : List (Moment leds rows cols))).getLast? = none := rfl
  rw [none] at last
  cases last

/-! ## One whole tick -/

/-- The phases that the steps among some moments ran, in order. -/
def phasesRun (past : List (Moment leds rows cols)) : List Phase :=
  (past.filter (·.action = .step)).map (·.before.phase)

/-- Actions that make one whole tick, from idle on, in which nothing drives the lines
past the controller. Calls may come between its steps. -/
structure WholeTick (now : Controller leds rows cols) (actions : List Action) : Prop where
  undisturbed : ∀ a ∈ actions, a.isDirect = false
  phases : phasesRun (now.history actions) = Phase.idle.remaining

theorem wholeTick_tick (hp : now.phase = .idle) : now.WholeTick [.tick] := by
  have steps : (now.history [.tick]).filter (·.action = .step) = now.history [.tick] := by
    refine List.filter_eq_self.mpr fun m hm => decide_eq_true ?_
    rw [history_tick_eq] at hm
    exact action_of_replicate hm
  refine ⟨by decide, ?_⟩
  rw [phasesRun, steps, history_tick_eq, phases_of_pieces, hp]

/-- A run is at the phase after the last one that it ran. -/
theorem phase_run {actions : List Action} (c : Controller leds rows cols)
    (hdirect : ∀ a ∈ actions, a.isDirect = false) :
    (c.run actions).1.phase =
      ((phasesRun (c.history actions)).getLast?.map Phase.next).getD c.phase := by
  have keeps : Keeps actions fun past (now : Controller leds rows cols) =>
      now.phase = ((phasesRun past).getLast?.map Phase.next).getD c.phase := by
    refine keeps_of_step_call hdirect ?_ ?_
    · intro past now _
      rw [phase_step]
      simp [phasesRun]
    · intro past now call h
      rw [(sameCursor_run_call now call).phase, h]
      simp [phasesRun]
  exact keeps.run rfl

theorem transfersOf_eq_filter (past : List (Moment leds rows cols)) :
    transfersOf past =
      (past.filter (·.action = .step)).filter fun m => m.before.phase = .transfer := by
  rw [transfersOf, List.filter_filter]
  congr 1
  funext m
  simp [Moment.runs, Bool.and_comm]

/-- One whole tick transfers once. -/
theorem WholeTick.transfers {actions : List Action} (h : now.WholeTick actions) :
    ∃ sent, transfersOf (now.history actions) = [sent] := by
  have phases := h.phases
  -- the transfers are the steps that ran that phase, and it occurs once among the five
  have count : (transfersOf (now.history actions)).length = 1 := by
    have filtered := congrArg (List.filter (· = Phase.transfer)) phases
    rw [phasesRun, List.filter_map] at filtered
    have length := congrArg List.length filtered
    rw [List.length_map] at length
    rw [transfersOf_eq_filter]
    exact length
  exact List.length_eq_one_iff.mp count

theorem WholeTick.settled {actions : List Action} (h : now.WholeTick actions)
    {sent : Moment leds rows cols} (transfers : transfersOf (now.history actions) = [sent])
    (wiring : Wiring) (levels : Levels) :
    Settled wiring sent (levels.after (wiring.carryAll (now.run actions).2)) := by
  have idle : (now.run actions).1.phase = .idle := by
    rw [phase_run now h.undisturbed, h.phases]
    rfl
  have last : (transfersOf (now.history actions)).getLast? = some sent := by
    rw [transfers]
    rfl
  have settled := (heals_run now h.undisturbed wiring ⟨levels, [], 0, []⟩ sent last).settled idle
  rwa [trace_history, Receiver.levels_feedAll] at settled

/-- The lines heal. Whoever drives the lines past the controller changes no reply, no state
and nothing that it sends; and one whole tick that is left alone settles clock, latch, row
lines and data lines, whatever they carried before it. -/
theorem lines_heal (c : Controller leds rows cols) (wiring : Wiring) (actions : List Action) :
    let calm := undisturbed actions
    let now := (c.run actions).1
    ((c.run calm).1 = now ∧ c.replies calm = c.replies actions ∧
        c.history calm = (c.history actions).filter fun m => !m.action.isDirect) ∧
      (now.phase = .idle → now.WholeTick [.tick]) ∧
      ∀ tick, now.WholeTick tick →
        ∃ sent, transfersOf (now.history tick) = [sent] ∧
          (∀ levels : Levels,
            Settled wiring sent (levels.after (wiring.carryAll (now.run tick).2))) ∧
          ∀ (levels : Levels) line, wiring.Settles rows cols line →
            levels.after (wiring.carryAll (c.run (actions ++ tick)).2) line =
              levels.after (wiring.carryAll (c.run (calm ++ tick)).2) line := by
  intro calm now
  have same : (c.run calm).1 = now := run_undisturbed c actions
  refine ⟨⟨same, replies_undisturbed c actions, history_undisturbed c actions⟩, wholeTick_tick, ?_⟩
  intro tick whole
  obtain ⟨sent, transfers⟩ := whole.transfers
  have settled (levels : Levels) :
      Settled wiring sent (levels.after (wiring.carryAll (now.run tick).2)) :=
    whole.settled transfers wiring levels
  refine ⟨sent, transfers, settled, ?_⟩
  intro levels line settles
  rw [run_append, run_append, same, Wiring.carryAll_append, Wiring.carryAll_append,
    Levels.after_append, Levels.after_append]
  exact (settled _).agree (settled _) settles

/-- Every line is high, and the clock and the latch are driven again; one tick that a
call interrupts lights the first row only, red, as if nothing had happened. -/
theorem lines_heal_stuck :
    let painting : List Action := [.call (.fill ⟨255, 0, 0⟩), .call .flush]
    let actions := painting ++ [.drive .clock .high, .drive .latch .high, .present 0,
      .drive (.row 1) .high]
    let tick : List Action := [.step, .call (.setGain 5), .tick]
    let high : Levels := fun _ => .high
    let levels := high.after (Wiring.direct.carryAll ((twoRows.run actions).1.run tick).2)
    (twoRows.run actions).1.WholeTick tick ∧ levels .clock = .low ∧ levels .latch = .low ∧
      levels (.data .red) = .high ∧
      (∀ n, Lit .direct 2 levels n ↔ n.toNat = 0 ∧ Wiring.direct.hasPin (.row n) = true) ∧
      high.after (Wiring.direct.carryAll (twoRows.run (actions ++ tick)).2) (.row 1) =
        high.after (Wiring.direct.carryAll (twoRows.run (painting ++ tick)).2) (.row 1) := by
  intro painting actions tick high levels
  have whole : (twoRows.run actions).1.WholeTick tick := ⟨by decide, by decide +kernel⟩
  obtain ⟨_, _, heals⟩ := lines_heal twoRows .direct actions
  obtain ⟨sent, transfers, settled, same⟩ := heals tick whole
  have first : transfersOf ((twoRows.run actions).1.history tick) =
      [⟨(twoRows.run (actions ++ [.step, .call (.setGain 5)])).1, .step⟩] := rfl
  obtain rfl := List.singleton_inj.mp (first.symm.trans transfers)
  have red : (twoRows.run (actions ++ [.step, .call (.setGain 5)])).1.scanner.current.word? 0 15 =
      some 0x4000 := by decide +kernel
  have ended := settled high
  obtain ⟨word, last, carries⟩ := ended.data Nat.one_pos
  obtain rfl := Option.some.inj (red.symm.trans last)
  exact ⟨whole, ended.clock, ended.latch, carries .red, ended.lit,
    same high (.row 1) ⟨by decide, rfl⟩⟩

end Controller

end LedMatrix

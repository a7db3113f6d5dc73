import LedMatrix.Proofs.SelfHealing

/-! # What a tick has to send

A tick owes what the phases that are left of it will send. As it begins it carries out
the commands that wait, and owes its row from then on; every later step sends first
what is owed first. So what was sent, and after it what is still owed, is what the
ticks that began had to send, whatever happened between their steps. -/

namespace LedMatrix

variable {leds rows cols : Nat}

/-- A row of a bank is sent, shown and lit. -/
def Bank.visit (bank : Bank rows cols) (row : Fin rows) : List (Instruction cols) :=
  [.rowsOff rows, .shift (bank.get row), .latchAll, .resetCounter, .rowOn (.ofNat row.val)]

/-- What the phases that are left of a tick will send; nothing between two ticks. -/
def Scanner.owes (scanner : Scanner rows cols) : List (Instruction cols) :=
  match scanner.phase with
  | .idle => []
  | .transfer => scanner.active.visit scanner.row
  | .latch => [.latchAll, .resetCounter, .rowOn scanner.line]
  | .reset => [.resetCounter, .rowOn scanner.line]
  | .select => [.rowOn scanner.line]

/-- What the tick that begins at a moment sends in all. -/
def Moment.due (m : Moment leds rows cols) : List (Instruction cols) :=
  if m.runs .idle then m.before.step.2 ++ m.before.step.1.scanner.owes else []

/-- How many ticks began. -/
def ticksOf (past : List (Moment leds rows cols)) : Nat := past.countP (Moment.runs .idle)

/-- How many ticks are under way. -/
def Phase.underway : Phase → Nat
  | .idle => 0
  | .transfer | .latch | .reset | .select => 1

theorem Phase.underway_next (phase : Phase) :
    phase.next.underway + (if phase = .select then 1 else 0) =
      phase.underway + if phase = .idle then 1 else 0 := by
  cases phase <;> rfl

section Counting

variable (past : List (Moment leds rows cols)) {m : Moment leds rows cols}

theorem ticksOf_idle (hm : m.runs .idle = true) : ticksOf (past ++ [m]) = ticksOf past + 1 := by
  simp [ticksOf, hm]

theorem ticksOf_other (hm : m.runs .idle = false) : ticksOf (past ++ [m]) = ticksOf past := by
  simp [ticksOf, hm]

end Counting

namespace Controller

variable {c now : Controller leds rows cols} {actions : List Action}
  {past : List (Moment leds rows cols)}

/-! ## One step -/

theorem owes_of_idle (hp : now.phase = .idle) : now.scanner.owes = [] := by
  have phase : now.scanner.phase = .idle := hp
  rw [Scanner.owes, phase]

/-- Once a tick has begun, a step sends what is owed first. -/
theorem owes_step (hp : now.phase ≠ .idle) :
    now.step.2 ++ now.step.1.scanner.owes = now.scanner.owes := by
  obtain ⟨_, _, ⟨_, _, phase⟩, _⟩ := now
  cases phase with
  | idle => exact absurd rfl hp
  | transfer | latch | reset | select => rfl

/-- A tick sends the commands that wait, and then its row of the bank that is shown
once a waiting bank was adopted. -/
theorem due_of_idle (hp : now.phase = .idle) :
    (Moment.ofStep now).due =
      now.mailbox.queue.commands.map Command.instruction ++ now.step.1.active.visit now.row := by
  have phase : now.step.1.scanner.phase = .transfer := phase_step_of hp
  have row : now.step.1.scanner.row = now.row := row_step (by simp [hp])
  have sent : now.step.2 = now.mailbox.queue.commands.map Command.instruction := by
    rw [step_of_idle hp]
  rw [Moment.due, if_pos (by simp [Moment.runs, hp]), sent, Scanner.owes, phase, row]
  rfl

/-! ## Runs -/

/-- What was sent and what is owed is what was owed at first and what the ticks that
began since had to send. -/
theorem sent_owes (c : Controller leds rows cols) (hdirect : ∀ a ∈ actions, a.isDirect = false) :
    (c.history actions).flatMap Moment.sent ++ (c.run actions).1.scanner.owes =
      c.scanner.owes ++ (c.history actions).flatMap Moment.due := by
  have keeps : Keeps actions fun past (now : Controller leds rows cols) =>
      past.flatMap Moment.sent ++ now.scanner.owes =
        c.scanner.owes ++ past.flatMap Moment.due := by
    refine keeps_of_step_call hdirect ?_ ?_
    · intro past now h
      have sent : (Moment.ofStep now).sent = now.step.2 := if_pos rfl
      rw [List.flatMap_append, List.flatMap_append, List.flatMap_singleton,
        List.flatMap_singleton, sent, List.append_assoc]
      by_cases hp : now.phase = .idle
      · have due : (Moment.ofStep now).due = now.step.2 ++ now.step.1.scanner.owes :=
          if_pos (by simp [Moment.runs, hp])
        rw [owes_of_idle hp, List.append_nil] at h
        rw [due, h, List.append_assoc]
      · have due : (Moment.ofStep now).due = [] := if_neg (by simp [Moment.runs, hp])
        rw [due, owes_step hp, h, List.append_nil]
    · intro past now call h
      have sent : (⟨now, .call call⟩ : Moment leds rows cols).sent = [] := rfl
      have due : (⟨now, .call call⟩ : Moment leds rows cols).due = [] := rfl
      rw [List.flatMap_append, List.flatMap_append, List.flatMap_singleton,
        List.flatMap_singleton, sent, due, List.append_nil, List.append_nil,
        scanner_run_call now call, h]
  exact keeps.run (List.append_nil _).symm

theorem trace_of_sent_run (c : Controller leds rows cols)
    (hdirect : ∀ a ∈ actions, a.isDirect = false) :
    (c.run actions).2 = ((c.history actions).flatMap Moment.sent).flatMap Instruction.signals := by
  rw [← trace_history, trace_of_moments fun m hm => ?_]
  obtain ⟨older, newer, split⟩ := List.append_of_mem hm
  exact isCall_of_history hdirect split

/-- From idle to idle a run sends what its ticks had to send. -/
theorem trace_of_dues (hdirect : ∀ a ∈ actions, a.isDirect = false) (begins : c.phase = .idle)
    (ends : (c.run actions).1.phase = .idle) :
    (c.run actions).2 = ((c.history actions).flatMap Moment.due).flatMap Instruction.signals := by
  have all := sent_owes c hdirect
  rw [owes_of_idle begins, owes_of_idle ends, List.append_nil, List.nil_append] at all
  rw [trace_of_sent_run c hdirect, all]

/-! ## Counting ticks -/

theorem turnsOf_append (s t : List (Moment leds rows cols)) :
    turnsOf (s ++ t) = turnsOf s + turnsOf t := List.countP_append

/-- How many ticks end in a course of action. -/
def ended (now : Controller leds rows cols) (actions : List Action) : Nat :=
  turnsOf (now.history actions)

/-- Where a run stands that has come from `c`: the cursor moves on by one with every
turn, and every tick that began has taken its turn, or is under way. -/
structure Paced (c : Controller leds rows cols) (past : List (Moment leds rows cols))
    (now : Controller leds rows cols) : Prop where
  row : now.row.val = (c.row.val + turnsOf past) % rows
  ticks : ticksOf past + c.phase.underway = turnsOf past + now.phase.underway

theorem Paced.refl (c : Controller leds rows cols) : c.Paced [] c :=
  ⟨(Nat.mod_eq_of_lt c.row.isLt).symm, rfl⟩

theorem Paced.step (h : c.Paced past now) : c.Paced (past ++ [.ofStep now]) now.step.1 := by
  have ticks := h.ticks
  have next := now.phase.underway_next
  rw [← phase_step] at next
  by_cases hs : now.phase = .select
  · have idle : now.phase ≠ .idle := by simp [hs]
    have cursor : now.step.1.row.val = (now.row.val + 1) % rows := by
      rw [step_select hs]
      rfl
    rw [if_pos hs, if_neg idle] at next
    refine ⟨?_, ?_⟩
    · rw [cursor, turnsOf_select past (by simp [Moment.runs, hs]), h.row, Nat.mod_add_mod,
        Nat.add_assoc]
    · rw [ticksOf_other past (by simp [Moment.runs, idle]),
        turnsOf_select past (by simp [Moment.runs, hs])]
      omega
  · rw [if_neg hs] at next
    refine ⟨?_, ?_⟩
    · rw [row_step hs, turnsOf_other past (by simp [Moment.runs, hs]), h.row]
    · rw [turnsOf_other past (by simp [Moment.runs, hs])]
      by_cases hi : now.phase = .idle
      · rw [if_pos hi] at next
        rw [ticksOf_idle past (by simp [Moment.runs, hi])]
        omega
      · rw [if_neg hi] at next
        rw [ticksOf_other past (by simp [Moment.runs, hi])]
        omega

theorem Paced.call (h : c.Paced past now) (call : Call) :
    c.Paced (past ++ [⟨now, .call call⟩]) (now.run [.call call]).1 := by
  have same := sameCursor_run_call now call
  refine ⟨?_, ?_⟩
  · rw [same.row, turnsOf_other past (by simp [Moment.runs]), h.row]
  · rw [same.phase, turnsOf_other past (by simp [Moment.runs]),
      ticksOf_other past (by simp [Moment.runs]), h.ticks]

/-- Between two ticks every tick that began has taken its turn. -/
theorem Paced.ticks_eq_turns (h : c.Paced past now) (begins : c.phase = .idle)
    (ends : now.phase = .idle) : ticksOf past = turnsOf past := by
  have pace := h.ticks
  rw [begins, ends] at pace
  exact Nat.add_right_cancel pace

theorem paced_run (c : Controller leds rows cols) (hdirect : ∀ a ∈ actions, a.isDirect = false) :
    c.Paced (c.history actions) (c.run actions).1 := by
  have keeps : Keeps actions fun past (now : Controller leds rows cols) => c.Paced past now :=
    keeps_of_step_call hdirect (fun _ _ h => h.step) fun _ _ call h => h.call call
  exact keeps.run (.refl c)

/-- Every tick takes one turn, wherever it was cut before. -/
theorem turnsOf_tick (c : Controller leds rows cols) : turnsOf (c.history [.tick]) = 1 := by
  have counted : turnsOf (c.history [.tick]) =
      ((c.history [.tick]).map fun m => (m.action, m.before.phase)).countP
        (· = (Action.step, Phase.select)) := by
    rw [turnsOf, List.countP_map]
    refine List.countP_congr fun m _ => ?_
    simp [Moment.runs]
  rw [counted, history_tick]
  cases c.phase <;> rfl

theorem ended_ticks (c : Controller leds rows cols) (h : ∀ a ∈ actions, a ≠ .step) :
    c.ended actions = actions.count .tick := by
  unfold ended
  induction actions generalizing c with
  | nil => rfl
  | cons a rest ih =>
    have later := ih (c.run [a]).1 fun b hb => h b (List.mem_cons_of_mem a hb)
    rw [← List.singleton_append, history_append, turnsOf_append, later, List.count_append]
    congr 1
    cases a with
    | step => exact absurd rfl (h .step List.mem_cons_self)
    | tick => exact turnsOf_tick c
    | call _ | drive _ _ | present _ => rfl

/-- A tick leaves the controller idle, and so it stays until the next step. -/
theorem phase_ticks (c : Controller leds rows cols) (h : ∀ a ∈ actions, a ≠ .step) :
    (c.run actions).1.phase = if .tick ∈ actions then .idle else c.phase := by
  induction actions using List.reverseRecOn with
  | nil => rfl
  | append_singleton s a ih =>
    have before := ih fun b hb => h b (List.mem_append_left _ hb)
    rw [run_append]
    cases a with
    | step => exact absurd rfl (h .step (by simp))
    | tick =>
      rw [if_pos (by simp), run_tick]
      exact phase_tick _
    | call call =>
      have same := (sameCursor_run_call (c.run s).1 call).phase
      simpa [before] using same
    | drive line level =>
      have same : ((c.run s).1.run [.drive line level]).1 = (c.run s).1 := rfl
      simpa [same] using before
    | present word =>
      have same : ((c.run s).1.run [.present word]).1 = (c.run s).1 := rfl
      simpa [same] using before

/-! ## One whole tick -/

/-- A whole tick begins once, at the row where it was asked for, takes the commands that
wait by then and sends what it has to send from then on. -/
theorem WholeTick.begins (h : now.WholeTick actions) :
    ∃ older met newer, now.history actions = older ++ .ofStep met :: newer ∧
      met.phase = .idle ∧ turnsOf older = 0 ∧ met.scanner = now.scanner ∧
      (now.history actions).flatMap Moment.taken = met.mailbox.queue.commands ∧
      (now.run actions).2 = (Moment.ofStep met).due.flatMap Instruction.signals := by
  have phases := h.phases
  rw [phasesRun, Phase.remaining] at phases
  obtain ⟨m, steps, split, hp, later⟩ := List.map_eq_cons_iff.mp phases
  obtain ⟨older, newer, history, calls, hm, rest⟩ := List.filter_eq_cons_iff.mp split
  obtain ⟨met, rfl, idle⟩ : ∃ met, m = .ofStep met ∧ met.phase = .idle :=
    Moment.exists_of_runs (by simp_all [Moment.runs])
  have begins : (Moment.ofStep met).runs .idle = true := by simp [Moment.runs, idle]
  -- before that step nothing but calls happened, and after it no other tick began
  have before : ∀ k ∈ older, k.action ≠ .step := by simpa using calls
  have others : ∀ k, k ∈ older ∨ k ∈ newer → k.runs .idle = false := by
    rintro k (hk | hk)
    · simp [Moment.runs, before k hk]
    · by_contra runs
      obtain ⟨stepped, idle⟩ : k.action = .step ∧ k.before.phase = .idle := by
        simpa [Moment.runs] using runs
      have among : k.before.phase ∈ steps.map (·.before.phase) :=
        List.mem_map_of_mem (rest ▸ List.mem_filter.mpr ⟨hk, by simp [stepped]⟩)
      rw [later, idle] at among
      simp at among
  have single {β : Type} (f : Moment leds rows cols → List β)
      (none : ∀ k, k.runs .idle = false → f k = []) :
      (now.history actions).flatMap f = f (.ofStep met) := by
    have early : older.flatMap f = [] :=
      List.flatMap_eq_nil_iff.mpr fun k hk => none k (others k (.inl hk))
    have late : newer.flatMap f = [] :=
      List.flatMap_eq_nil_iff.mpr fun k hk => none k (others k (.inr hk))
    rw [history, List.flatMap_append, List.flatMap_cons, early, late, List.nil_append,
      List.append_nil]
  have scanner : met.scanner = now.scanner := by
    have keeps : Keeps actions fun past (cur : Controller leds rows cols) =>
        (∀ k ∈ past, k.action ≠ .step) → cur.scanner = now.scanner := by
      refine keeps_of_step_call h.undisturbed ?_ ?_
      · intro past cur _ none
        exact absurd rfl (none (.ofStep cur) (by simp))
      · intro past cur call ih none
        rw [scanner_run_call]
        exact ih fun k hk => none k (List.mem_append_left _ hk)
    exact keeps.moment (fun _ => rfl) history before
  have starts : now.phase = .idle := (congrArg Scanner.phase scanner).symm.trans idle
  have ends : (now.run actions).1.phase = .idle := by
    rw [phase_run now h.undisturbed, h.phases]
    rfl
  refine ⟨older, met, newer, history, idle, ?_, scanner, ?_, ?_⟩
  · refine List.countP_eq_zero.mpr fun k hk => ?_
    simp [Moment.runs, before k hk]
  · rw [single Moment.taken fun k hk => if_neg (by simp [hk])]
    exact if_pos begins
  · rw [trace_of_dues h.undisturbed starts ends,
      single Moment.due fun k hk => if_neg (by simp [hk])]

/-- The same of a whole tick after other actions, with the moments from the first of
them on. -/
theorem WholeTick.begins_after {s tick : List Action} (h : (c.run s).1.WholeTick tick) :
    ∃ older met newer, c.history (s ++ tick) = older ++ .ofStep met :: newer ∧
      met.phase = .idle ∧ turnsOf older = c.ended s ∧ met.row = (c.run s).1.row ∧
      ((c.run s).1.history tick).flatMap Moment.taken = met.mailbox.queue.commands ∧
      ((c.run s).1.run tick).2 = (Moment.ofStep met).due.flatMap Instruction.signals := by
  obtain ⟨older, met, newer, history, idle, none, scanner, taken, sent⟩ := h.begins
  refine ⟨c.history s ++ older, met, newer, ?_, idle, ?_, congrArg Scanner.row scanner, taken, sent⟩
  · rw [history_append, history, List.append_assoc]
  · rw [turnsOf_append, none, Nat.add_zero, ended]

end Controller

end LedMatrix

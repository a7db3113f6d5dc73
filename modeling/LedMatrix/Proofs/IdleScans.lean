import LedMatrix.Proofs.Dues

/-! # Idle scans repeat

When no flush and no command waits, nothing tells one scan from the next. From the row
where the cursor stands, wherever that is, every `rows` ticks send the same, and at
their end everything is as it was but the frame, which the application may paint
meanwhile, and the note that a first scan is under way. -/

namespace LedMatrix

variable {leds rows cols : Nat}

/-- The moments since a scan last began; all of them before the first one. -/
def sinceScan (past : List (Moment leds rows cols)) : List (Moment leds rows cols) :=
  past.rtakeWhile fun m => !m.beginsScan

/-- Setting one color or all of them. -/
def Call.paints : Call → Bool
  | .setColor _ _ | .fill _ => true
  | .flush | .setGain _ | .setOutput _ => false

/-- Painting, and the refresh timer at work. -/
def Action.onlyPaints : Action → Bool
  | .call asked => asked.paints
  | .step | .tick => true
  | .drive _ _ | .present _ => false

theorem Action.isDirect_of_onlyPaints {a : Action} (h : a.onlyPaints = true) :
    a.isDirect = false := by
  cases a with
  | call _ | step | tick => rfl
  | drive _ _ | present _ => cases h

/-- What is sent for each of `rows` rows in turn repeats after as many. -/
theorem flatMap_range_mul {α : Type} (n : Nat) {f : Nat → List α}
    (periodic : ∀ j, f (j + rows) = f j) :
    (List.range (n * rows)).flatMap f =
      (List.replicate n ((List.range rows).flatMap f)).flatten := by
  induction n with
  | zero => simp
  | succ n ih =>
    have shifted (j : Nat) : f (rows + j) = f j := by rw [Nat.add_comm, periodic]
    rw [Nat.succ_mul, Nat.add_comm, List.range_add, List.flatMap_append, List.flatMap_map,
      List.replicate_succ, List.flatten_cons, ← ih]
    simp only [shifted]

namespace Controller

variable {c now cur : Controller leds rows cols} {past : List (Moment leds rows cols)}
  {actions : List Action}

/-! ## What waits for the next scan -/

theorem sinceScan_other (past : List (Moment leds rows cols)) {m : Moment leds rows cols}
    (h : m.beginsScan = false) : sinceScan (past ++ [m]) = sinceScan past ++ [m] :=
  List.rtakeWhile_concat_pos _ _ _ (by simp [h])

/-- Only a bank that was flushed since a scan last began waits. -/
theorem keeps_flushed_of_waiting (actions : List Action) :
    Keeps actions fun past (now : Controller leds rows cols) =>
      now.mailbox.waiting = true → ∃ m ∈ sinceScan past, m.isFlush = true := by
  intro past now a ht _ h waits
  have keep (hb : (⟨now, a⟩ : Moment leds rows cols).beginsScan = false)
      (before : now.mailbox.waiting = true) :
      ∃ m ∈ sinceScan (past ++ [⟨now, a⟩]), m.isFlush = true := by
    obtain ⟨m, hm, flush⟩ := h before
    rw [sinceScan_other past hb]
    exact ⟨m, List.mem_append_left _ hm, flush⟩
  cases effect_run now ht with
  | flushed flush _ =>
    rw [sinceScan_other past (Moment.beginsScan_of_isFlush flush)]
    exact ⟨_, List.mem_append_right _ List.mem_cons_self, flush⟩
  | adopted begins _ result =>
    rw [result] at waits
    exact absurd waits Bool.false_ne_true
  | lit selects result =>
    rw [result, (sameBanks_endTick now).waiting] at waits
    exact keep (Moment.beginsScan_of_select selects) waits
  | quiet _ _ settled same =>
    rw [same.waiting] at waits
    refine keep (Bool.eq_false_iff.mpr fun begins => ?_) waits
    exact absurd ((settled begins).symm.trans waits) Bool.false_ne_true

/-! ## Painting -/

/-- Painting changes the frame and nothing else. -/
theorem run_paints (now : Controller leds rows cols) {call : Call} (h : call.paints = true) :
    (now.run [.call call]).1 = now.paint (now.run [.call call]).1.frame := by
  cases call with
  | fill color => rfl
  | setColor index color =>
    cases set : now.canvas.frame.set index color with
    | error fault =>
      have refused : now.call (.setColor index color) = .error fault := by
        rw [Controller.call, set]
        rfl
      rw [run_of_error refused]
      rfl
    | ok painted =>
      have accepted : now.call (.setColor index color) = .ok (now.paint painted) := by
        rw [Controller.call, set]
        rfl
      rw [run_of_ok accepted]
      rfl
  | flush | setGain _ | setOutput _ => cases h

/-- What a painting call makes of a frame does not depend on the rest of the controller. -/
theorem frame_run_paints {other : Controller leds rows cols} {call : Call}
    (h : call.paints = true) (same : now.frame = other.frame) :
    (now.run [.call call]).1.frame = (other.run [.call call]).1.frame := by
  cases call with
  | fill color => rfl
  | setColor index color =>
    have set : now.canvas.frame.set index color = other.canvas.frame.set index color :=
      congrArg (·.set index color) same
    cases result : other.canvas.frame.set index color with
    | error _ =>
      simp only [run, act, Controller.call, set, result, Except.map]
      exact same
    | ok painted =>
      simp only [run, act, Controller.call, set, result, Except.map]
      rfl
  | flush | setGain _ | setOutput _ => cases h

theorem frame_tick (now : Controller leds rows cols) : now.tick.1.frame = now.frame := by
  fun_induction tick now with
  | case1 now ends => exact now.frame_step
  | case2 now continues rest ih => exact ih.trans now.frame_step

/-- The refresh timer leaves the frame to the calls. -/
theorem frame_run {other : Controller leds rows cols} (same : now.frame = other.frame)
    (h : ∀ a ∈ actions, a.onlyPaints = true) :
    (now.run actions).1.frame =
      (other.run (actions.filter fun a => a ≠ .step ∧ a ≠ .tick)).1.frame := by
  induction actions generalizing now other with
  | nil => exact same
  | cons a rest ih =>
    have later : ∀ b ∈ rest, b.onlyPaints = true := fun b hb => h b (List.mem_cons_of_mem a hb)
    rw [run_cons]
    cases a with
    | step =>
      have kept : (now.run [.step]).1.frame = now.frame := by
        rw [run_step_fst]
        exact now.frame_step
      rw [List.filter_cons_of_neg (by simp)]
      exact ih (kept.trans same) later
    | tick =>
      have kept : (now.run [.tick]).1.frame = now.frame := by
        rw [run_tick]
        exact now.frame_tick
      rw [List.filter_cons_of_neg (by simp)]
      exact ih (kept.trans same) later
    | call call =>
      have paints : call.paints = true := h _ List.mem_cons_self
      rw [List.filter_cons_of_pos (by simp), run_cons other]
      exact ih (frame_run_paints paints same) later
    | drive _ _ | present _ => exact absurd (h _ List.mem_cons_self) Bool.false_ne_true

/-! ## A controller at rest -/

/-- Between two ticks, with no bank and no command that waits. -/
structure AtRest (now : Controller leds rows cols) : Prop where
  idle : now.phase = .idle
  waiting : now.mailbox.waiting = false
  queue : now.mailbox.queue = .empty

/-- What the `j`th tick from now on sends, when nothing else is to be sent. -/
def visitAfter (now : Controller leds rows cols) (j : Nat) : List (Instruction cols) :=
  now.active.visit ⟨(now.row.val + j) % rows, Nat.mod_lt _ now.row.pos⟩

theorem visitAfter_add (now : Controller leds rows cols) (j : Nat) :
    now.visitAfter (j + rows) = now.visitAfter j := by
  unfold visitAfter
  simp only [← Nat.add_assoc, Nat.add_mod_right]

/-- What is left as it was, and what was sent, since the controller was at rest. -/
structure Repeats (now : Controller leds rows cols) (past : List (Moment leds rows cols))
    (cur : Controller leds rows cols) : Prop where
  canvas : cur.canvas = { now.canvas with frame := cur.frame }
  active : cur.active = now.active
  mailbox : cur.mailbox.completeScan = now.mailbox.completeScan
  scanned : rows ≤ now.row.val + turnsOf past → cur.mailbox.firstScan = false
  dues : past.flatMap Moment.due = (List.range (ticksOf past)).flatMap now.visitAfter

theorem Repeats.refl (now : Controller leds rows cols) : now.Repeats [] now where
  canvas := rfl
  active := rfl
  mailbox := rfl
  scanned below := absurd now.row.isLt (Nat.not_lt.mpr below)
  dues := rfl

namespace Repeats

theorem waiting (h : now.Repeats past cur) (rest : now.AtRest) : cur.mailbox.waiting = false :=
  (congrArg Mailbox.waiting h.mailbox).trans rest.waiting

theorem queue (h : now.Repeats past cur) (rest : now.AtRest) : cur.mailbox.queue = .empty :=
  (congrArg Mailbox.queue h.mailbox).trans rest.queue

/-- A tick that begins has its row to send and nothing else. -/
theorem due (h : now.Repeats past cur) (rest : now.AtRest) (hp : cur.phase = .idle) :
    (Moment.ofStep cur).due = now.active.visit cur.row := by
  have sends : cur.step.1.active = now.active := by
    rw [step_idle_of_not_waiting hp fun _ => h.waiting rest]
    exact h.active
  have empty : cur.mailbox.queue.commands = [] := congrArg CommandQueue.commands (h.queue rest)
  rw [due_of_idle hp, sends, empty, List.map_nil, List.nil_append]

theorem begin (h : now.Repeats past cur) (rest : now.AtRest) (paced : now.Paced past cur)
    (hp : cur.phase = .idle) : now.Repeats (past ++ [.ofStep cur]) cur.step.1 := by
  have drained : cur.mailbox.drained = cur.mailbox := by
    rw [Mailbox.drained, ← h.queue rest]
  have due : (Moment.ofStep cur).due = now.visitAfter (ticksOf past) := by
    have ticks : ticksOf past = turnsOf past := paced.ticks_eq_turns rest.idle hp
    have row : cur.row = ⟨(now.row.val + ticksOf past) % rows, Nat.mod_lt _ now.row.pos⟩ :=
      Fin.ext (ticks ▸ paced.row)
    rw [h.due rest hp, visitAfter, ← row]
  have runs : (Moment.ofStep cur).runs .idle = true := by simp [Moment.runs, hp]
  have noTurn : (Moment.ofStep cur).runs .select = false := by simp [Moment.runs, hp]
  have next := step_idle_of_not_waiting hp fun _ => h.waiting rest
  rw [drained] at next
  rw [next]
  refine ⟨h.canvas, h.active, h.mailbox, ?_, ?_⟩
  · rw [turnsOf_other past noTurn]
    exact h.scanned
  · rw [List.flatMap_append, List.flatMap_singleton, h.dues, due, ticksOf_idle past runs,
      List.range_succ, List.flatMap_append, List.flatMap_singleton]

/-- A step within a tick changes nothing, and the end of a scan only ends the first one. -/
theorem goOn (h : now.Repeats past cur) (paced : now.Paced past cur) (hp : cur.phase ≠ .idle) :
    now.Repeats (past ++ [.ofStep cur]) cur.step.1 := by
  have notDue : (Moment.ofStep cur).due = [] := if_neg (by simp [Moment.runs, hp])
  have dues : (past ++ [Moment.ofStep cur]).flatMap Moment.due =
      (List.range (ticksOf (past ++ [Moment.ofStep cur]))).flatMap now.visitAfter := by
    rw [List.flatMap_append, List.flatMap_singleton, notDue, List.append_nil,
      ticksOf_other past (by simp [Moment.runs, hp])]
    exact h.dues
  by_cases hs : cur.phase = .select
  · have turns : turnsOf (past ++ [.ofStep cur]) = turnsOf past + 1 :=
      turnsOf_select past (by simp [Moment.runs, hs])
    have row := paced.row
    rw [step_select hs]
    unfold endTick
    split
    · exact ⟨h.canvas, h.active, h.mailbox, fun _ => rfl, dues⟩
    · rename_i goesOn
      refine ⟨h.canvas, h.active, h.mailbox, fun beyond => h.scanned ?_, dues⟩
      -- were this the turn that completes the scan, the cursor would return to the first row
      by_contra within
      have last : cur.scanner.row.val + 1 = rows := by
        have inside : now.row.val + turnsOf past < rows := by omega
        have cursor : cur.scanner.row.val = now.row.val + turnsOf past :=
          row.trans (Nat.mod_eq_of_lt inside)
        omega
      exact goesOn (Scanner.nextRow_of_last last)
  · rw [step_of_ne hp hs]
    refine ⟨h.canvas, h.active, h.mailbox, ?_, dues⟩
    rw [turnsOf_other past (by simp [Moment.runs, hs])]
    exact h.scanned

theorem paint {call : Call} (h : now.Repeats past cur) (paints : call.paints = true) :
    now.Repeats (past ++ [⟨cur, .call call⟩]) (cur.run [.call call]).1 := by
  have notDue : (⟨cur, .call call⟩ : Moment leds rows cols).due = [] := rfl
  rw [run_paints cur paints]
  refine ⟨?_, h.active, h.mailbox, ?_, ?_⟩
  · rw [Controller.paint, h.canvas]
    rfl
  · rw [turnsOf_other past (by simp [Moment.runs])]
    exact h.scanned
  · rw [List.flatMap_append, List.flatMap_singleton, notDue, List.append_nil,
      ticksOf_other past (by simp [Moment.runs]), h.dues]

end Repeats

theorem keeps_repeats (rest : now.AtRest) (painting : ∀ a ∈ actions, a.onlyPaints = true) :
    Keeps actions fun past (cur : Controller leds rows cols) =>
      now.Paced past cur ∧ now.Repeats past cur := by
  intro past cur a ht ha h
  obtain ⟨paced, repeats⟩ := h
  cases a with
  | tick => exact absurd rfl ht
  | step =>
    rw [run_step_fst]
    refine ⟨paced.step, ?_⟩
    by_cases hp : cur.phase = .idle
    · exact repeats.begin rest paced hp
    · exact repeats.goOn paced hp
  | call call =>
    have paints : call.paints = true := painting _ (ha.resolve_right nofun)
    exact ⟨paced.call call, repeats.paint paints⟩
  | drive _ _ | present _ => exact absurd (painting _ (ha.resolve_right nofun)) Bool.false_ne_true

/-! ## The law -/

section Runs

variable {later : List Action}

theorem repeats_run (rest : now.AtRest) (painting : ∀ a ∈ later, a.onlyPaints = true) :
    now.Repeats (now.history later) (now.run later).1 :=
  ((keeps_repeats rest painting).run ⟨.refl now, .refl now⟩).2

/-- At rest again, a run has sent the visits of the rows in turn. -/
theorem trace_at_rest (rest : now.AtRest) (painting : ∀ a ∈ later, a.onlyPaints = true)
    (ends : (now.run later).1.phase = .idle) :
    (now.run later).2 = (List.range (now.ended later)).flatMap fun j =>
      (now.visitAfter j).flatMap Instruction.signals := by
  have direct : ∀ a ∈ later, a.isDirect = false := fun a ha =>
    Action.isDirect_of_onlyPaints (painting a ha)
  have ticks : ticksOf (now.history later) = now.ended later :=
    (paced_run now direct).ticks_eq_turns rest.idle ends
  rw [trace_of_dues direct rest.idle ends, (repeats_run rest painting).dues, ticks,
    List.flatMap_assoc]

/-- After whole scans the cursor is back where it was. -/
theorem repeats_scans (rest : now.AtRest) (painting : ∀ a ∈ later, a.onlyPaints = true) {n : Nat}
    (least : 1 ≤ n) (scans : now.ended later = n * rows) (ends : (now.run later).1.phase = .idle) :
    (now.run later).1 =
      { now.paint (now.run later).1.frame with mailbox := now.mailbox.completeScan } := by
  have repeats := repeats_run rest painting
  have paced := paced_run now fun a ha => Action.isDirect_of_onlyPaints (painting a ha)
  have turns : turnsOf (now.history later) = n * rows := scans
  have row : (now.run later).1.scanner.row = now.scanner.row := by
    refine Fin.ext (paced.row.trans ?_)
    rw [turns, Nat.add_mul_mod_self_right]
    exact Nat.mod_eq_of_lt now.row.isLt
  have phase : (now.run later).1.scanner.phase = now.scanner.phase := ends.trans rest.idle.symm
  have active : (now.run later).1.scanner.active = now.scanner.active := repeats.active
  have mailbox : (now.run later).1.mailbox = now.mailbox.completeScan := by
    have beyond : rows ≤ now.row.val + turnsOf (now.history later) := by
      rw [turns]
      exact (Nat.le_mul_of_pos_left rows least).trans (Nat.le_add_left _ _)
    rw [← repeats.mailbox, Mailbox.completeScan, ← repeats.scanned beyond]
  have scanner : (now.run later).1.scanner = now.scanner := by
    calc (now.run later).1.scanner
      _ = ⟨(now.run later).1.scanner.active, (now.run later).1.scanner.row,
          (now.run later).1.scanner.phase⟩ := rfl
      _ = now.scanner := by rw [active, row, phase]
  calc (now.run later).1
    _ = ⟨(now.run later).1.canvas, (now.run later).1.mailbox, (now.run later).1.scanner,
        now.addressable⟩ := rfl
    _ = ⟨{ now.canvas with frame := (now.run later).1.frame }, now.mailbox.completeScan,
        now.scanner, now.addressable⟩ := by rw [scanner, mailbox, ← repeats.canvas]

/-- Every whole tick on the way sends the visit of its row, which is always the same. -/
theorem trace_of_visit (rest : now.AtRest) (painting : ∀ a ∈ later, a.onlyPaints = true)
    {s tick news : List Action} (split : later = s ++ tick ++ news)
    (whole : (now.run s).1.WholeTick tick) :
    ((now.run s).1.run tick).2 =
      (now.active.visit (now.run s).1.row).flatMap Instruction.signals := by
  obtain ⟨older, met, newer, history, idle, _, row, _, sent⟩ := whole.begins_after
  have soFar : ∀ a ∈ s ++ tick, a.onlyPaints = true := fun a ha =>
    painting a (split ▸ List.mem_append_left news ha)
  obtain ⟨_, repeats⟩ := (keeps_repeats rest soFar).moment ⟨.refl now, .refl now⟩ history
  rw [sent, repeats.due rest idle, row]

/-- What is sent over `n` scans is `n` times what one scan of plain ticks sends. -/
theorem trace_of_scans (rest : now.AtRest) (painting : ∀ a ∈ later, a.onlyPaints = true) {n : Nat}
    (scans : now.ended later = n * rows) (ends : (now.run later).1.phase = .idle) :
    (now.run later).2 = (List.replicate n (now.run (List.replicate rows .tick)).2).flatten := by
  have ticks : ∀ a ∈ List.replicate rows Action.tick, a = .tick := fun _ ha =>
    List.eq_of_mem_replicate ha
  have plain : ∀ a ∈ List.replicate rows Action.tick, a.onlyPaints = true := by
    intro a ha
    rw [ticks a ha]
    rfl
  have noStep : ∀ a ∈ List.replicate rows Action.tick, a ≠ .step := by
    intro a ha
    rw [ticks a ha]
    exact nofun
  have once : now.ended (List.replicate rows .tick) = rows := by
    rw [ended_ticks now noStep, List.count_replicate_self]
  have closed : (now.run (List.replicate rows .tick)).1.phase = .idle := by
    rw [phase_ticks now noStep, rest.idle, ite_self]
  have periodic (j : Nat) : (now.visitAfter (j + rows)).flatMap Instruction.signals =
      (now.visitAfter j).flatMap Instruction.signals := by rw [visitAfter_add]
  rw [trace_at_rest rest painting ends, trace_at_rest rest plain closed, scans, once,
    flatMap_range_mul n periodic]

end Runs

variable {timebase : Timebase} {config : Config} {layout : Layout leds} {banks : Banks rows cols}
  {t : Trace}

theorem atRest_of_settled (h : start timebase config layout banks = .ok (c, t))
    (idle : (c.run actions).1.phase = .idle)
    (settled : ∀ m ∈ sinceScan (c.history actions), m.isFlush = false)
    (empty : (c.run actions).1.mailbox.queue = .empty) : (c.run actions).1.AtRest := by
  refine ⟨idle, Bool.eq_false_iff.mpr fun waits => ?_, empty⟩
  obtain ⟨hr, _, _, rfl, _⟩ := eq_fresh_of_start h
  have nothing : (fresh config layout banks hr).mailbox.waiting = false := rfl
  obtain ⟨m, hm, flush⟩ := (keeps_flushed_of_waiting actions).run
    (fun early => absurd (nothing.symm.trans early) Bool.false_ne_true) waits
  exact absurd ((settled m hm).symm.trans flush) Bool.false_ne_true

/-- Idle scans repeat exactly. Between two ticks, with no flush since a scan last began and
no command in the queue, `n` scans among which only colors are set send `n` times what one
scan of plain ticks would send, and change nothing but the frame and the note of a first scan. -/
theorem idle_scans_repeat (h : start timebase config layout banks = .ok (c, t))
    (actions later : List Action) (idle : (c.run actions).1.phase = .idle)
    (settled : ∀ m ∈ sinceScan (c.history actions), m.isFlush = false)
    (empty : (c.run actions).1.mailbox.queue = .empty)
    (painting : ∀ a ∈ later, a.onlyPaints = true) :
    let now := (c.run actions).1
    let after := (now.run later).1
    let scan := (now.run (List.replicate rows .tick)).2
    (.step ∉ later → now.ended later = later.count .tick ∧ after.phase = .idle) ∧
      (∀ s tick rest, later = s ++ tick ++ rest → (now.run s).1.WholeTick tick →
        ((now.run s).1.run tick).2 =
          (now.active.visit (now.run s).1.row).flatMap Instruction.signals) ∧
      ∀ n, 1 ≤ n → now.ended later = n * rows → after.phase = .idle →
        (now.run later).2 = (List.replicate n scan).flatten ∧
          (after.row = now.row ∧ after.active = now.active) ∧
          after = { now.paint after.frame with mailbox := now.mailbox.completeScan } ∧
          after.frame = (now.run (later.filter fun a => a ≠ .step ∧ a ≠ .tick)).1.frame ∧
          after.isPending = false := by
  intro now after scan
  have rest : now.AtRest := atRest_of_settled h idle settled empty
  refine ⟨fun whole => ?_, fun s tick news => trace_of_visit rest painting,
    fun n least scans ends => ?_⟩
  · have noStep : ∀ a ∈ later, a ≠ .step := fun a ha he => whole (he ▸ ha)
    have phase : after.phase = if .tick ∈ later then .idle else now.phase :=
      phase_ticks now noStep
    refine ⟨ended_ticks now noStep, phase.trans ?_⟩
    rw [rest.idle, ite_self]
  · have result := repeats_scans rest painting least scans ends
    have pending : now.mailbox.completeScan.isPending = false :=
      (Mailbox.isPending_completeScan now.mailbox).trans rest.waiting
    refine ⟨trace_of_scans rest painting scans ends, ⟨?_, ?_⟩, result, frame_run rfl painting, ?_⟩
    · exact (congrArg Controller.row result :)
    · exact (congrArg Controller.active result :)
    · exact (congrArg Controller.isPending result :).trans pending

/-- Two rows and one LED, on the first row; the second scan of a frame that was
repainted since: two scans, the first of them cut, in which all is painted again. -/
theorem idle_scans_repeat_repainted :
    let actions : List Action := [.call (.setColor 0 ⟨255, 0, 0⟩), .call .flush, .tick]
    let later : List Action :=
      [.step, .step, .call (.fill ⟨0, 9, 0⟩), .tick, .tick, .tick,
        .call (.setColor 7 ⟨1, 1, 1⟩), .tick]
    let now := (twoRows.run actions).1
    let after := (now.run later).1
    let scan := (now.run [.tick, .tick]).2
    (start .microseconds {} #v[⟨0, 0⟩] (.dark : Banks 2 1) =
      .ok (twoRows, startTrace 2 1 {} ⟨556⟩) ∧
        now.phase = .idle ∧ (∀ m ∈ sinceScan (twoRows.history actions), m.isFlush = false) ∧
        now.mailbox.queue = .empty ∧ ∀ a ∈ later, a.onlyPaints = true) ∧
      (now.row.val = 1 ∧ now.isPending = true) ∧ now.ended later = 4 ∧
      (now.run later).2 = scan ++ scan ∧ after.row.val = 1 ∧ after.active = now.active ∧
      after.isPending = false ∧ after.frame = ⟨#v[⟨0, 9, 0⟩]⟩ := by
  intro actions later now after scan
  have idle : now.phase = .idle := by decide +kernel
  have settled : ∀ m ∈ sinceScan (twoRows.history actions), m.isFlush = false := by
    decide +kernel
  have empty : now.mailbox.queue = .empty := by decide +kernel
  have painting : ∀ a ∈ later, a.onlyPaints = true := by decide
  have ended : now.ended later = 4 := by decide +kernel
  have ends : after.phase = .idle := by decide +kernel
  obtain ⟨_, _, scans⟩ :=
    idle_scans_repeat start_twoRows actions later idle settled empty painting
  obtain ⟨sent, ⟨row, active⟩, _, frame, pending⟩ := scans 2 (by decide) ended ends
  refine ⟨⟨start_twoRows, idle, settled, empty, painting⟩, by decide +kernel, ended, ?_, ?_, active,
    pending, ?_⟩
  · rw [sent, List.replicate_succ, List.flatten_cons, List.replicate_one, List.flatten_singleton]
    rfl
  · rw [row]
    decide +kernel
  · rw [frame]
    decide +kernel

end Controller

end LedMatrix

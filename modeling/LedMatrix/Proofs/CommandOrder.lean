import LedMatrix.Proofs.LitRow
import LedMatrix.Proofs.Sightings

/-! # Commands are carried out in order

A command waits in the queue until a tick begins and is carried out there, before
anything reaches a row. So what the chips were told since the start is what the
application asked for, less what still waits: nothing is lost, told twice or put
out of order, and a call is refused only while four commands wait. -/

namespace LedMatrix

variable {leds rows cols : Nat}

/-- The command that a call posts. -/
def Call.command? : Call → Option Command
  | .setGain gain => some (.setGain (gain &&& Register.gainMask))
  | .setOutput on => some (.setOutput on)
  | .setColor _ _ | .fill _ | .flush => none

/-- What is posted has no bits that do not count. -/
theorem Call.masked_of_command? {call : Call} {command : Command}
    (h : call.command? = some command) : command.masked = command := by
  cases call with
  | setColor _ _ | fill _ | flush => cases h
  | setGain gain =>
    cases h
    simp [Command.masked, UInt8.and_assoc]
  | setOutput on =>
    cases h
    rfl

namespace Moment

/-- The command that a call posted and was not refused. -/
def accepted? (m : Moment leds rows cols) : Option Command :=
  match m.action with
  | .call call => if (m.before.call call).isOk then call.command? else none
  | _ => none

/-- The commands that a step took out of the queue. -/
def taken (m : Moment leds rows cols) : List Command :=
  if m.runs .idle then m.before.mailbox.queue.commands else []

/-- What the panel was told to do. -/
def sent (m : Moment leds rows cols) : List (Instruction cols) :=
  if m.action = .step then m.before.step.2 else []

end Moment

/-- The commands that were accepted, in order. -/
def accepted (past : List (Moment leds rows cols)) : List Command :=
  past.filterMap Moment.accepted?

/-- What happened since a tick last began. -/
def sinceIdle (past : List (Moment leds rows cols)) : List (Moment leds rows cols) :=
  past.rtakeWhile fun m => !m.runs .idle

section Past

variable {past : List (Moment leds rows cols)} {m : Moment leds rows cols}

theorem accepted_concat (past : List (Moment leds rows cols)) (m : Moment leds rows cols) :
    accepted (past ++ [m]) = accepted past ++ m.accepted?.toList := by
  rw [accepted, List.filterMap_append, accepted]
  cases h : m.accepted? <;> simp [h]

theorem masked_of_mem_accepted {command : Command} (h : command ∈ accepted past) :
    command.masked = command := by
  obtain ⟨⟨now, action⟩, -, posted⟩ := List.mem_filterMap.mp h
  cases action with
  | step | tick | drive _ _ | present _ => cases posted
  | call call =>
    simp only [Moment.accepted?, Option.ite_none_right_eq_some] at posted
    exact Call.masked_of_command? posted.2

theorem sinceIdle_idle (past : List (Moment leds rows cols)) (hm : m.runs .idle = true) :
    sinceIdle (past ++ [m]) = [] :=
  List.rtakeWhile_concat_neg _ _ _ (by simp [hm])

theorem sinceIdle_other (past : List (Moment leds rows cols)) (hm : m.runs .idle = false) :
    sinceIdle (past ++ [m]) = sinceIdle past ++ [m] :=
  List.rtakeWhile_concat_pos _ _ _ (by simp [hm])

end Past

namespace Controller

variable {past : List (Moment leds rows cols)} {now next : Controller leds rows cols}
  {m : Moment leds rows cols} {call : Call} {command : Command}

/-! ## What waits in the queue -/

theorem queue_of_post (h : now.post command = .ok next) :
    next.mailbox.queue.commands = now.mailbox.queue.commands ++ [command] := by
  cases hq : now.mailbox.queue.push? command with
  | none =>
    rw [post_of_none hq] at h
    cases h
  | some longer =>
    rw [post_of_some hq] at h
    cases h
    exact CommandQueue.commands_push? hq

theorem queue_of_call (h : now.call call = .ok next) :
    next.mailbox.queue.commands = now.mailbox.queue.commands ++ call.command?.toList := by
  cases call with
  | setGain gain => exact queue_of_post h
  | setOutput on => exact queue_of_post h
  | fill color | flush =>
    cases h
    exact (List.append_nil _).symm
  | setColor index color =>
    simp only [Controller.call, Except.map] at h
    split at h
    · cases h
    · cases h
      exact (List.append_nil _).symm

theorem queue_run_call (now : Controller leds rows cols) (call : Call) :
    (now.run [.call call]).1.mailbox.queue.commands =
      now.mailbox.queue.commands ++
        (⟨now, .call call⟩ : Moment leds rows cols).accepted?.toList := by
  cases h : now.call call with
  | error fault =>
    rw [run_of_error h]
    simp [Moment.accepted?, h, Except.isOk, Except.toBool]
  | ok next =>
    rw [run_of_ok h, queue_of_call h]
    simp [Moment.accepted?, h, Except.isOk, Except.toBool]

theorem call_of_command? (h : call.command? = some command) : now.call call = now.post command := by
  cases call with
  | setColor _ _ | fill _ | flush => cases h
  | setGain gain | setOutput on =>
    cases h
    rfl

/-- Commands are taken in the order in which they were accepted, and those that
wait were accepted since a tick last began. -/
structure InQueue (past : List (Moment leds rows cols)) (now : Controller leds rows cols) :
    Prop where
  waiting : now.mailbox.queue.commands = accepted (sinceIdle past)
  all : past.flatMap Moment.taken ++ now.mailbox.queue.commands = accepted past

theorem InQueue.take (h : InQueue past now) (hp : now.phase = .idle) :
    InQueue (past ++ [.ofStep now]) now.step.1 := by
  have runs : (Moment.ofStep now).runs .idle = true := by simp [Moment.runs, hp]
  have taken : (Moment.ofStep now).taken = now.mailbox.queue.commands := if_pos runs
  have none : now.step.1.mailbox.queue.commands = [] := by
    rw [queue_step_idle hp]
    rfl
  refine ⟨?_, ?_⟩
  · rw [none, sinceIdle_idle past runs]
    rfl
  · rw [none, accepted_concat, List.flatMap_append, List.flatMap_singleton, taken, h.all]
    rfl

/-- Whatever does not begin a tick adds to the queue what it accepts. -/
theorem InQueue.add (h : InQueue past m.before) (hm : m.runs .idle = false)
    (queue : next.mailbox.queue.commands =
      m.before.mailbox.queue.commands ++ m.accepted?.toList) : InQueue (past ++ [m]) next := by
  have taken : m.taken = [] := if_neg (by simp [hm])
  refine ⟨?_, ?_⟩
  · rw [queue, sinceIdle_other past hm, accepted_concat, h.waiting]
  · rw [queue, accepted_concat, List.flatMap_append, List.flatMap_singleton, taken,
      List.append_nil, ← List.append_assoc, h.all]

theorem keeps_inQueue {actions : List Action} (hdirect : ∀ a ∈ actions, a.isDirect = false) :
    Keeps actions fun past (now : Controller leds rows cols) => InQueue past now := by
  refine keeps_of_step_call hdirect ?_ ?_
  · intro past now h
    by_cases hp : now.phase = .idle
    · exact h.take hp
    · refine h.add (m := .ofStep now) (by simp [Moment.runs, hp]) ?_
      rw [queue_step hp]
      exact (List.append_nil _).symm
  · intro past now call h
    exact h.add (m := ⟨now, .call call⟩) (by simp [Moment.runs]) (queue_run_call now call)

/-! ## What the board is told -/

theorem trace_of_sent (hstep : m.action ≠ .step → m.isCall = true) :
    m.trace = m.sent.flatMap Instruction.signals := by
  obtain ⟨now, a⟩ := m
  by_cases ha : a = .step
  · subst ha
    exact trace_step now
  · rw [trace_of_isCall (hstep ha), Moment.sent, if_neg ha]
    rfl

theorem trace_of_moments (hstep : ∀ m ∈ past, m.action ≠ .step → m.isCall = true) :
    past.flatMap Moment.trace = (past.flatMap Moment.sent).flatMap Instruction.signals := by
  induction past with
  | nil => rfl
  | cons m past ih =>
    rw [List.flatMap_cons, List.flatMap_cons, List.flatMap_append,
      trace_of_sent (hstep m List.mem_cons_self),
      ih fun m hm => hstep m (List.mem_cons_of_mem _ hm)]

/-- Steps and calls leave clock and latch low. -/
theorem quiet_of_moments {r : Receiver} (quiet : r.Quiet) (wiring : Wiring)
    (hstep : ∀ m ∈ past, m.action ≠ .step → m.isCall = true) :
    (r.feedAll (wiring.carryAll (past.flatMap Moment.trace))).Quiet := by
  rw [trace_of_moments hstep]
  exact (Receiver.feedAll_sent wiring (past.flatMap Moment.sent) quiet).1

theorem sightings_of_moment {r : Receiver} (quiet : r.Quiet) (wiring : Wiring)
    (hstep : m.action ≠ .step → m.isCall = true) :
    r.sightings (wiring.carryAll m.trace) = m.sent.flatMap Instruction.sightings := by
  rw [trace_of_sent hstep]
  exact Receiver.sightings_instructions wiring m.sent quiet

/-- The chips are told what is taken out of the queue, and nothing else. -/
theorem controls_sent (m : Moment leds rows cols) :
    m.sent.flatMap Instruction.controls = m.taken.map Command.control := by
  obtain ⟨now, a⟩ := m
  by_cases ha : a = .step
  · subst ha
    have sent : (Moment.ofStep now).sent = now.step.2 := if_pos rfl
    rw [sent, step]
    cases hp : now.phase with
    | idle =>
      have taken : (Moment.ofStep now).taken = now.mailbox.queue.commands :=
        if_pos (by simp [Moment.runs, hp])
      rw [taken, Mailbox.carryOut_eq, Command.controls_instructions]
    | transfer | latch | reset | select =>
      have taken : (Moment.ofStep now).taken = [] := if_neg (by simp [Moment.runs, hp])
      rw [taken]
      rfl
  · simp [Moment.sent, Moment.taken, Moment.runs, ha]

/-- Over many moments they are told just that, in order. -/
theorem controls_of_moments {r : Receiver} (quiet : r.Quiet) (wiring : Wiring)
    (hstep : ∀ m ∈ past, m.action ≠ .step → m.isCall = true) :
    controls false (r.sightings (wiring.carryAll (past.flatMap Moment.trace))) =
      (past.flatMap Moment.taken).map Command.control := by
  rw [trace_of_moments hstep, Receiver.sightings_instructions wiring _ quiet,
    Instruction.controls_flatMap_sightings, List.flatMap_assoc, List.map_flatMap]
  simp only [controls_sent]

/-- A command is seen only as a tick begins. -/
theorem runs_of_isControl {s : Sighting} (hs : s ∈ m.sent.flatMap Instruction.sightings)
    (control : s.isControl = true) : m.runs .idle = true := by
  by_contra other
  have taken : m.taken = [] := if_neg other
  have told := controls_sent m
  rw [taken, List.map_nil, List.flatMap_eq_nil_iff] at told
  obtain ⟨i, hi, hs⟩ := List.mem_flatMap.mp hs
  rw [i.isControl_of_mem (told i hi) hs] at control
  cases control

theorem row_not_mem_of_idle (hm : m.runs .idle = true) (wiring : Wiring) (n : UInt8)
    (level : Level) : .drive (.row n) level ∉ wiring.carryAll m.trace := by
  obtain ⟨now, rfl, hp⟩ := Moment.exists_of_runs hm
  intro driven
  have hs := (Wiring.mem_carryAll_drive (by simp) driven).1
  rw [trace_step, step_of_idle hp] at hs
  obtain ⟨i, hi, hs⟩ := List.mem_flatMap.mp hs
  obtain ⟨command, -, rfl⟩ := List.mem_map.mp hi
  cases command with
  | setGain gain =>
    simp [Command.instruction, Instruction.setGain, Instruction.signals, Burst.opening,
      Burst.drive_not_mem] at hs
  | setOutput on => simp [Command.instruction, Instruction.signals] at hs

/-! ## Runs -/

variable {timebase : Timebase} {config : Config} {layout : Layout leds} {banks : Banks rows cols}
  {c : Controller leds rows cols} {t : Trace} {actions : List Action}

/-- Whatever a board carried before, a start leaves clock and latch low. -/
theorem quiet_start (h : start timebase config layout banks = .ok (c, t)) (wiring : Wiring)
    (r : Receiver) : (r.feedAll (wiring.carryAll t)).Quiet := by
  obtain ⟨_, period, _, rfl, rfl⟩ := eq_fresh_of_start h
  have split : startTrace rows cols config period =
      (.timerPeriod period :: ((Instruction.rowsOff rows : Instruction cols).signals ++
        (Instruction.output true : Instruction cols).signals)) ++
        ((Instruction.setGain config.gain : Instruction cols).signals ++ [.timerOn]) := by
    simp [startTrace, bringUp]
  rw [split, Wiring.carryAll_append, Wiring.carryAll_append, Receiver.feedAll_append,
    Receiver.feedAll_append, Receiver.feedAll_carry_timer wiring rfl]
  exact Receiver.quiet_configure wiring _ _

theorem inQueue_fresh (config : Config) (layout : Layout leds) (banks : Banks rows cols)
    (hr : 1 ≤ rows ∧ rows ≤ 256) : InQueue [] (fresh config layout banks hr) := ⟨rfl, rfl⟩

/-- Commands are carried out exactly once, in order, between two rows: those read off
the lines, and then those that wait, are those of the calls that were not refused. Only
the step that begins a tick shows commands, all that wait, before it reaches a row. A
call is refused exactly when four were accepted since a tick last began. -/
theorem commands_carried_out_in_order (h : start timebase config layout banks = .ok (c, t))
    (wiring : Wiring) (hdirect : ∀ a ∈ actions, a.isDirect = false) (r : Receiver) :
    let board := r.feedAll (wiring.carryAll t)
    let past := c.history actions
    let now := (c.run actions).1
    (∃ executed,
        controls false (board.sightings (wiring.carryAll (c.run actions).2)) =
          executed.map Command.control ∧
        executed ++ now.mailbox.queue.commands = accepted past ∧
        ∀ others : List Command, others.map Command.control = executed.map Command.control →
          others.map Command.masked = executed) ∧
      (∀ older m newer, past = older ++ m :: newer →
        let before := board.feedAll (wiring.carryAll (older.flatMap Moment.trace))
        let seen := before.sightings (wiring.carryAll m.trace)
        before.Quiet ∧ (∀ s ∈ seen, s.isControl = true → m.runs .idle = true) ∧
          (m.runs .idle = true →
            controls false seen = m.before.mailbox.queue.commands.map Command.control ∧
              (∀ n level, .drive (.row n) level ∉ wiring.carryAll m.trace) ∧
              (m.before.run [m.action]).1.mailbox.queue.commands = [])) ∧
      ∀ call command, call.command? = some command → ∀ fault,
        now.call call = .error fault ↔
          fault = .queueFull command ∧
            (accepted (sinceIdle past)).length = CommandQueue.capacity := by
  intro board past now
  have quiet := quiet_start h wiring r
  have inQueue : InQueue past now := by
    obtain ⟨hr, _, _, rfl, _⟩ := eq_fresh_of_start h
    exact (keeps_inQueue hdirect).run (inQueue_fresh config layout banks hr)
  have ordinary : ∀ m ∈ past, m.action ≠ .step → m.isCall = true := by
    intro m hm
    obtain ⟨older, newer, split⟩ := List.append_of_mem hm
    exact isCall_of_history hdirect split
  refine ⟨?_, ?_, ?_⟩
  · refine ⟨past.flatMap Moment.taken, ?_, inQueue.all, fun others same => ?_⟩
    · rw [← trace_history]
      exact controls_of_moments quiet wiring ordinary
    · have masked : ∀ command ∈ past.flatMap Moment.taken, command.masked = id command :=
        fun command taken =>
          masked_of_mem_accepted (inQueue.all ▸ List.mem_append_left _ taken)
      rw [Command.masked_of_controls same, List.map_congr_left masked, List.map_id]
  · intro older m newer split before seen
    have calm : before.Quiet :=
      quiet_of_moments quiet wiring fun k hk => ordinary k (split ▸ List.mem_append_left _ hk)
    have whole : seen = m.sent.flatMap Instruction.sightings :=
      sightings_of_moment calm wiring (ordinary m (by simp [split]))
    refine ⟨calm, ?_, ?_⟩
    · intro s hs control
      exact runs_of_isControl (whole ▸ hs) control
    · intro hm
      have taken : m.taken = m.before.mailbox.queue.commands := if_pos hm
      refine ⟨?_, row_not_mem_of_idle hm wiring, ?_⟩
      · rw [whole, Instruction.controls_flatMap_sightings, controls_sent, taken]
      · obtain ⟨met, rfl, hp⟩ := Moment.exists_of_runs hm
        rw [run_step_fst, queue_step_idle hp]
        rfl
  · intro call command hcommand fault
    rw [call_of_command? hcommand, post_eq_error_iff, inQueue.waiting]

/-- Five commands before the first tick: the fifth is refused, and the tick carries
out the others. Of the first gain only six bits count. -/
theorem commands_carried_out_in_order_five_calls :
    let calls : List Action := [.call (.setGain 199), .call (.setOutput false),
      .call (.setGain 1), .call (.setOutput true)]
    let actions := calls ++ [.call (.setOutput false), .step]
    let board := (Receiver.switchedOn fun _ => 7).feedAll
      (Wiring.direct.carryAll (startTrace 2 1 {} ⟨556⟩))
    start .microseconds {} #v[⟨0, 0⟩] (.dark : Banks 2 1) =
      .ok (twoRows, startTrace 2 1 {} ⟨556⟩) ∧
      (∀ a ∈ actions, a.isDirect = false) ∧
      (twoRows.run calls).1.call (.setOutput false) = .error (.queueFull (.setOutput false)) ∧
      controls false (board.sightings (Wiring.direct.carryAll (twoRows.run actions).2)) =
        [.register (Register.spelled 0x8470), .output false, .register (Register.spelled 0x8410),
          .output true] := by
  intro calls actions board
  have ordinary : ∀ a ∈ actions, a.isDirect = false := by decide
  have early : ∀ a ∈ calls, a.isDirect = false := by decide
  obtain ⟨⟨executed, told, all, _⟩, _, _⟩ :=
    commands_carried_out_in_order start_twoRows .direct ordinary (.switchedOn fun _ => 7)
  obtain ⟨_, _, refused⟩ :=
    commands_carried_out_in_order start_twoRows .direct early (.switchedOn fun _ => 7)
  have none : (twoRows.run actions).1.mailbox.queue.commands = [] := by decide
  have asked : accepted (twoRows.history actions) =
      [.setGain 7, .setOutput false, .setGain 1, .setOutput true] := by decide
  rw [none, List.append_nil, asked] at all
  refine ⟨start_twoRows, ordinary, ?_, ?_⟩
  · exact (refused (.setOutput false) _ rfl _).mpr ⟨rfl, by decide⟩
  · rw [told, all]
    rfl

end Controller

end LedMatrix

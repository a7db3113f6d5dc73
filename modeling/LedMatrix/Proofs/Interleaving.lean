import LedMatrix.Proofs.Stage

/-! # When a call and a step may change places

The two sides share the mailbox only. A step takes notice of a command when it
takes the commands, at the start of a tick, and of a flush when it adopts the
waiting bank, at the start of a scan; of painting it takes none. At every other
point it makes no difference whether a call comes before a step or after it, and
so none how the calls are spread over the steps of a tick or of a scan. -/

namespace LedMatrix

variable {leds rows cols : Nat}

namespace Controller

variable {now next other : Controller leds rows cols} {call : Call} {s t : List Action}

/-- What the application is told. -/
def reply (now : Controller leds rows cols) (call : Call) : Except Fault Unit :=
  (now.call call).map fun _ => ()

/-- The replies to the calls among some actions, in order. -/
def replies (now : Controller leds rows cols) : List Action → List (Except Fault Unit)
  | [] => []
  | .call call :: rest => now.reply call :: (now.run [.call call]).1.replies rest
  | a :: rest => (now.run [a]).1.replies rest

/-- Two courses of action that neither the board nor the application nor anything
that follows can tell apart. -/
structure Agree (now : Controller leds rows cols) (s t : List Action) : Prop where
  /-- The same controller in the end, and the same signals on the way. -/
  run : now.run s = now.run t
  replies : now.replies s = now.replies t

/-- Whether the step that is due takes notice of a call. -/
def Heeds (now : Controller leds rows cols) : Call → Prop
  | .setColor _ _ | .fill _ => False
  | .flush => now.phase = .idle ∧ now.row.val = 0
  | .setGain _ | .setOutput _ => now.phase = .idle

instance (now : Controller leds rows cols) : (call : Call) → Decidable (now.Heeds call)
  | .setColor _ _ | .fill _ => inferInstanceAs (Decidable False)
  | .flush => inferInstanceAs (Decidable (_ ∧ _))
  | .setGain _ | .setOutput _ => inferInstanceAs (Decidable (_ = _))

/-! ## One call and one step -/

theorem step_paint (now : Controller leds rows cols) (frame : Frame leds) :
    (now.paint frame).step = (now.step.1.paint frame, now.step.2) := by
  have same : (now.paint frame).phase = now.phase := rfl
  unfold step
  rw [same]
  cases now.phase with
  | idle =>
    by_cases hr : now.scanner.row.val = 0
    · simp [beginTick, paint, hr]
    · simp [beginTick, paint, hr]
  | transfer | latch | reset | select => rfl

theorem step_flush (h : ¬now.Heeds .flush) :
    now.flush.step = (now.step.1.flush, now.step.2) := by
  have same : now.flush.phase = now.phase := rfl
  unfold step
  rw [same]
  cases hp : now.phase with
  | idle =>
    have later : now.scanner.row.val ≠ 0 := fun hr => h ⟨hp, hr⟩
    simp [beginTick, flush, later, Mailbox.publish, Mailbox.drained]
  | transfer | latch | reset => rfl
  | select =>
    by_cases hr : now.scanner.nextRow.val = 0
    · simp [endTick, flush, hr, Mailbox.publish, Mailbox.completeScan]
    · simp [endTick, flush, hr, Mailbox.publish]

theorem step_queued (h : now.phase ≠ .idle) (queue : CommandQueue) :
    (now.queued queue).step = (now.step.1.queued queue, now.step.2) := by
  have same : (now.queued queue).phase = now.phase := rfl
  unfold step
  rw [same]
  cases hp : now.phase with
  | idle => exact absurd hp h
  | transfer | latch | reset => rfl
  | select =>
    by_cases hr : now.scanner.nextRow.val = 0
    · simp [endTick, queued, hr, Mailbox.completeScan]
    · simp [endTick, queued, hr]

theorem frame_step (now : Controller leds rows cols) : now.step.1.frame = now.frame := by
  have painted := congrArg Prod.fst (step_paint now now.frame)
  have same : now.paint now.frame = now := rfl
  rw [same] at painted
  rw [painted]
  rfl

theorem post_step (h : now.phase ≠ .idle) (command : Command) :
    (now.post command).map step = (now.step.1.post command).map (·, now.step.2) := by
  have queue : now.step.1.mailbox.queue = now.mailbox.queue := queue_step h
  cases hq : now.mailbox.queue.push? command with
  | none =>
    rw [post_of_none hq, post_of_none (queue ▸ hq)]
    rfl
  | some longer =>
    rw [post_of_some hq, post_of_some (queue ▸ hq), Except.map, step_queued h]
    rfl

/-- A call that the step takes no notice of: called before it or after it, the
application is told the same, the step sends the same and the result is the same. -/
theorem call_step (h : ¬now.Heeds call) :
    (now.call call).map step = (now.step.1.call call).map (·, now.step.2) := by
  cases call with
  | setColor index color =>
    have frame : now.step.1.canvas.frame = now.canvas.frame := now.frame_step
    rw [Controller.call, Controller.call, frame]
    cases now.canvas.frame.set index color with
    | error _ => rfl
    | ok painted => simp [Except.map, step_paint]
  | fill color =>
    have filled : now.step.1.canvas.frame.fill color = now.canvas.frame.fill color := rfl
    simp [Controller.call, Except.map, filled, step_paint]
  | flush => simp [Controller.call, Except.map, step_flush h]
  | setGain gain => exact post_step h _
  | setOutput on => exact post_step h _

theorem agree_of_not_heeds (h : ¬now.Heeds call) :
    now.Agree [.call call, .step] [.step, .call call] := by
  have square := call_step h
  cases hc : now.call call with
  | error fault =>
    cases ha : now.step.1.call call with
    | ok after => simp [hc, ha, Except.map] at square
    | error same =>
      refine ⟨?_, ?_⟩
      · rw [run_cons now (.call call), run_of_error hc, run_cons now .step [_],
          run_step_fst, run_of_error ha, run_step]
        simp [emit]
      · simp only [hc, ha, Except.map, Except.error.injEq] at square
        simp [replies, reply, run_step_fst, hc, ha, square, Except.map]
  | ok next =>
    cases ha : now.step.1.call call with
    | error _ => simp [hc, ha, Except.map] at square
    | ok after =>
      simp only [hc, ha, Except.map, Except.ok.injEq] at square
      refine ⟨?_, ?_⟩
      · rw [run_cons now (.call call), run_of_ok hc, run_cons now .step [_], run_step_fst now,
          run_of_ok ha, run_step, run_step, square]
        simp [emit]
      · simp [replies, reply, run_step_fst, hc, ha, Except.map]

/-- A command is carried out by the first step of a tick, or left in the queue. -/
theorem not_agree_of_post {command : Command} (hp : now.phase = .idle)
    (posts : ∀ c : Controller leds rows cols, c.call call = c.post command) :
    ¬now.Agree [.call call, .step] [.step, .call call] := by
  intro agree
  have same := congrArg (fun sent => sent.1.mailbox.queue.commands) agree.run
  rw [run_cons now (.call call), run_cons now .step [_], run_step, run_step] at same
  have idle : (now.run [.call call]).1.phase = .idle := by
    rw [phase, scanner_run_call]
    exact hp
  have taken := queue_step_idle idle
  have none := queue_step_idle hp
  have left : now.step.1.call call = .ok (now.step.1.queued ⟨[command], Nat.le_add_left 1 3⟩) := by
    rw [posts]
    refine post_of_some ?_
    rw [none]
    rfl
  simp only [emit, taken, run_of_ok left, queued, CommandQueue.empty] at same
  cases same

/-- A step that takes notice of a call tells the two orders apart. -/
theorem not_agree_of_heeds (h : now.Heeds call) :
    ¬now.Agree [.call call, .step] [.step, .call call] := by
  cases call with
  | setColor _ _ | fill _ => exact absurd h id
  | setGain gain => exact not_agree_of_post h fun _ => rfl
  | setOutput on => exact not_agree_of_post h fun _ => rfl
  | flush =>
    intro agree
    obtain ⟨hp, hr⟩ := h
    have same := congrArg Prod.fst agree.run
    rw [run_cons now (.call .flush), run_cons now .step, run_step, run_step] at same
    have flushed : (now.run [.call .flush]).1 = now.flush := rfl
    rw [flushed] at same
    -- the bank that was flushed before the step is adopted, the one after it waits
    have adopted := step_idle_of_waiting (c := now.flush) hp hr rfl
    have waits := congrArg (fun c => c.mailbox.waiting) same
    simp only [emit, adopted] at waits
    cases waits

/-! ## Calls spread over steps -/

/-- The calls, in order, spread in some way over a number of steps. -/
inductive Interleaving : List Call → Nat → List Action → Prop where
  | done : Interleaving [] 0 []
  | call {calls : List Call} {n : Nat} {s : List Action} (call : Call) :
      Interleaving calls n s → Interleaving (call :: calls) n (.call call :: s)
  | step {calls : List Call} {n : Nat} {s : List Action} :
      Interleaving calls n s → Interleaving calls (n + 1) (.step :: s)

/-! ### Agreement in context -/

theorem Agree.refl (now : Controller leds rows cols) (s : List Action) : now.Agree s s :=
  ⟨rfl, rfl⟩

theorem Agree.symm (h : now.Agree s t) : now.Agree t s := ⟨h.run.symm, h.replies.symm⟩

theorem Agree.trans {u : List Action} (h : now.Agree s t) (h' : now.Agree t u) : now.Agree s u :=
  ⟨h.run.trans h'.run, h.replies.trans h'.replies⟩

theorem replies_append (now : Controller leds rows cols) (s t : List Action) :
    now.replies (s ++ t) = now.replies s ++ (now.run s).1.replies t := by
  induction s generalizing now with
  | nil => rfl
  | cons a s ih =>
    rw [run_cons now a s]
    cases a with
    | call call => rw [List.cons_append, replies, replies, ih, List.cons_append]
    | step | tick | drive _ _ | present _ => simp only [List.cons_append, replies, ih]

theorem Agree.append (h : now.Agree s t) (later : List Action) :
    now.Agree (s ++ later) (t ++ later) := by
  refine ⟨?_, ?_⟩
  · rw [run_append, run_append, h.run]
  · rw [replies_append, replies_append, h.run, h.replies]

theorem Agree.after (earlier : List Action) (h : (now.run earlier).1.Agree s t) :
    now.Agree (earlier ++ s) (earlier ++ t) := by
  refine ⟨?_, ?_⟩
  · rw [run_append, run_append, h.run]
  · rw [replies_append, replies_append, h.replies]

/-! ### The steps do not depend on the calls -/

/-- At the same row and phase. What a step takes notice of depends on nothing else. -/
structure SameCursor (now other : Controller leds rows cols) : Prop where
  phase : now.phase = other.phase
  row : now.row = other.row

theorem SameCursor.step (h : now.SameCursor other) : now.step.1.SameCursor other.step.1 := by
  refine ⟨?_, ?_⟩
  · rw [phase_step, phase_step, h.phase]
  · by_cases hs : now.phase = .select
    · have row : now.scanner.row = other.scanner.row := h.row
      rw [step_select hs, step_select (h.phase ▸ hs)]
      simp only [Controller.row, endTick, Scanner.nextRow, row]
    · rw [row_step hs, row_step (h.phase ▸ hs), h.row]

theorem SameCursor.steps (h : now.SameCursor other) (n : Nat) :
    (now.steps n).1.SameCursor (other.steps n).1 := by
  induction n generalizing now other with
  | zero => exact h
  | succ n ih => exact ih h.step

theorem SameCursor.heeds_iff (h : now.SameCursor other) (call : Call) :
    now.Heeds call ↔ other.Heeds call := by
  cases call <;> simp [Heeds, h.phase, h.row]

theorem sameCursor_run_call (now : Controller leds rows cols) (call : Call) :
    (now.run [.call call]).1.SameCursor now := by
  have same := scanner_run_call now call
  exact ⟨congrArg Scanner.phase same, congrArg Scanner.row same⟩

/-! ### Every spreading agrees -/

variable {calls : List Call} {n : Nat}

/-- A call may be put off past any number of steps that take no notice of it. -/
theorem agree_call_steps (unheeded : ∀ k < n, ¬(now.steps k).1.Heeds call) :
    now.Agree (.call call :: List.replicate n .step) (List.replicate n .step ++ [.call call]) := by
  induction n generalizing now with
  | zero => exact .refl now _
  | succ n ih =>
    have first : now.Agree [.call call, .step] [.step, .call call] :=
      agree_of_not_heeds (unheeded 0 n.succ_pos)
    have others : (now.run [.step]).1.Agree (.call call :: List.replicate n .step)
        (List.replicate n .step ++ [.call call]) := by
      rw [run_step_fst]
      refine ih fun k hk => ?_
      exact unheeded (k + 1) (Nat.succ_lt_succ hk)
    exact (first.append (List.replicate n .step)).trans (others.after [.step])

theorem agree_steps_first (hs : Interleaving calls n s)
    (unheeded : ∀ call ∈ calls, ∀ k < n, ¬(now.steps k).1.Heeds call) :
    now.Agree s (List.replicate n .step ++ calls.map .call) := by
  induction hs generalizing now with
  | done => exact .refl now []
  | @call calls n s call _ ih =>
    have others : (now.run [.call call]).1.Agree s
        (List.replicate n .step ++ calls.map .call) := by
      refine ih fun other hother k hk => ?_
      rw [((sameCursor_run_call now call).steps k).heeds_iff]
      exact unheeded other (List.mem_cons_of_mem call hother) k hk
    have putOff := agree_call_steps (unheeded call List.mem_cons_self)
    have last := putOff.append (calls.map .call)
    rw [List.append_assoc] at last
    exact (others.after [.call call]).trans last
  | @step calls n s _ ih =>
    have others : (now.run [.step]).1.Agree s
        (List.replicate n .step ++ calls.map .call) := by
      rw [run_step_fst]
      refine ih fun other hother k hk => ?_
      exact unheeded other hother (k + 1) (Nat.succ_lt_succ hk)
    exact others.after [.step]

/-- A call and the step that is due may change places, with the same replies, signals and
end, exactly when the step takes no notice of the call. So calls that no step of a stretch
takes notice of may be spread over the stretch in any way. -/
theorem agree_call_step_iff (now : Controller leds rows cols) :
    (∀ call, now.Agree [.call call, .step] [.step, .call call] ↔ ¬now.Heeds call) ∧
      ∀ calls n s t, Interleaving calls n s → Interleaving calls n t →
        (∀ call ∈ calls, ∀ k < n, ¬(now.steps k).1.Heeds call) →
        ∀ later, now.Agree (s ++ later) (t ++ later) := by
  refine ⟨?_, ?_⟩
  · intro call
    exact ⟨fun agree heeds => not_agree_of_heeds heeds agree, agree_of_not_heeds⟩
  · intro calls n s t hs ht unheeded later
    have same := (agree_steps_first hs unheeded).trans (agree_steps_first ht unheeded).symm
    exact same.append later

/-- Within one tick a flush, a command and a painting that is refused may come
before all of its steps or be spread over them. At the very start of a scan a
flush may not be put off. -/
theorem agree_call_step_iff_two_rows :
    let now := (twoRows.run [.step]).1
    let early : List Action := [.call .flush, .call (.setGain 7), .call (.setColor 5 .off),
      .step, .step, .step, .step]
    let spread : List Action := [.step, .call .flush, .step, .step, .call (.setGain 7), .step,
      .call (.setColor 5 .off)]
    (∀ later, now.Agree (early ++ later) (spread ++ later)) ∧
      now.replies early = [.ok (), .ok (), .error (.indexOutOfRange 5 1)] ∧
      ¬twoRows.Agree [.call .flush, .step] [.step, .call .flush] := by
  intro now early spread
  have tick := (agree_call_step_iff now).2 [.flush, .setGain 7, .setColor 5 .off] 4 early spread
    (.call _ (.call _ (.call _ (.step (.step (.step (.step .done)))))))
    (.step (.call _ (.step (.step (.call _ (.step (.call _ .done)))))))
    (by decide)
  have flush := (agree_call_step_iff twoRows).1 .flush
  exact ⟨tick, by decide, fun agree => flush.mp agree (by decide)⟩

end Controller

end LedMatrix

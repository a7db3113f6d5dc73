import LedMatrix.Proofs.Effect

/-! # What is left in a bank is never shown

A start blanks the banks that it is handed, and a frame is drawn over a blank bank
before it is published. So neither what an earlier run left in the banks nor the old
frame in the bank that comes back from the scan can be told from anything that the
lines or the timer get, from any answer, or from what can be read. -/

namespace LedMatrix

variable {leds rows cols : Nat}

/-! ## What can be told of a panel -/

/-- What can be read of a controller. -/
structure View (leds rows cols : Nat) where
  row : Fin rows
  phase : Phase
  pending : Bool
  active : Bank rows cols
  frame : Frame leds
  layout : Layout leds
  deriving DecidableEq

def Controller.view (c : Controller leds rows cols) : View leds rows cols :=
  ⟨c.row, c.phase, c.isPending, c.active, c.frame, c.layout⟩

namespace Panel

def view? (panel : Panel leds rows cols) : Option (View leds rows cols) :=
  panel.controller?.map Controller.view

/-- What comes of each request, the fault or what reaches the board and the timer, and
what can be read afterwards. -/
def observed (timebase : Timebase) (panel : Panel leds rows cols) :
    List (Request leds) → List (Except Fault Trace × Option (View leds rows cols))
  | [] => []
  | r :: rest =>
    match panel.handle timebase r with
    | .ok (next, trace) => (.ok trace, next.view?) :: next.observed timebase rest
    | .error fault => (.error fault, panel.view?) :: panel.observed timebase rest

end Panel

/-- Both are refused for the same reason, or both are done, send the same and are alike
afterwards. -/
inductive Outcomes {α : Type} (alike : α → α → Prop) :
    Except Fault (α × Trace) → Except Fault (α × Trace) → Prop where
  | refused (fault : Fault) : Outcomes alike (.error fault) (.error fault)
  | done {now other : α} (trace : Trace) (h : alike now other) :
      Outcomes alike (.ok (now, trace)) (.ok (other, trace))

/-! ## Banks that are drawn over before they are shown -/

namespace Controller

variable {now other : Controller leds rows cols}

/-- A controller with other things in the back bank and in the published bank. -/
def lend (c : Controller leds rows cols) (back published : Bank rows cols) :
    Controller leds rows cols :=
  { c with
    canvas := { c.canvas with back }
    mailbox := { c.mailbox with published } }

/-- The same controller, except for what is in the back bank and, unless a flushed frame
waits there, in the published bank. -/
inductive Indistinct (now : Controller leds rows cols) : Controller leds rows cols → Prop where
  | lent (back published : Bank rows cols)
      (waits : now.mailbox.waiting = true → published = now.mailbox.published) :
      Indistinct now (now.lend back published)

theorem endTick_lend (now : Controller leds rows cols) (back published : Bank rows cols) :
    (now.lend back published).endTick = now.endTick.lend back published := by
  by_cases hz : now.scanner.nextRow.val = 0
  · simp [endTick, lend, hz, Mailbox.completeScan]
  · simp [endTick, lend, hz]

namespace Indistinct

theorem refl (now : Controller leds rows cols) : now.Indistinct now :=
  .lent now.canvas.back now.mailbox.published fun _ => rfl

theorem view (h : now.Indistinct other) : now.view = other.view := by
  cases h
  rfl

/-! ### One step -/

/-- Adopting takes a bank only when a frame waits in it, and leaves the old one. -/
theorem step (h : now.Indistinct other) : now.step.1.Indistinct other.step.1 := by
  obtain ⟨back, published, waits⟩ := h
  by_cases hi : now.phase = .idle
  · by_cases hw : now.row.val = 0 ∧ now.mailbox.waiting = true
    · obtain rfl := waits hw.2
      rw [step_idle_of_waiting hi hw.1 hw.2,
        step_idle_of_waiting (c := now.lend back now.mailbox.published) hi hw.1 hw.2]
      exact .lent back now.active nofun
    · have settled : now.row.val = 0 → now.mailbox.waiting = false := by simpa using hw
      rw [step_idle_of_not_waiting hi settled,
        step_idle_of_not_waiting (c := now.lend back published) hi settled]
      exact .lent back published waits
  · by_cases hs : now.phase = .select
    · have same := sameBanks_endTick now
      rw [step_select hs, step_select (c := now.lend back published) hs, endTick_lend]
      refine .lent back published ?_
      rw [same.waiting, same.published]
      exact waits
    · rw [step_of_ne hi hs, step_of_ne (c := now.lend back published) hi hs]
      exact .lent back published waits

/-- A step sends commands, a row of the bank that is shown, or nothing from any bank. -/
theorem sent (h : now.Indistinct other) : now.step.2 = other.step.2 := by
  obtain ⟨back, published, -⟩ := h
  have phase : (now.lend back published).phase = now.phase := rfl
  unfold Controller.step
  rw [phase]
  cases now.phase with
  | idle =>
    rw [Mailbox.carryOut_eq, Mailbox.carryOut_eq]
    rfl
  | transfer | latch | reset | select => rfl

theorem steps (h : now.Indistinct other) (n : Nat) :
    (now.steps n).1.Indistinct (other.steps n).1 ∧ (now.steps n).2 = (other.steps n).2 := by
  induction n generalizing now other with
  | zero => exact ⟨h, rfl⟩
  | succ n ih =>
    obtain ⟨after, sent⟩ := ih h.step
    refine ⟨after, ?_⟩
    rw [Controller.steps, Controller.steps, h.sent, sent]

theorem tick (h : now.Indistinct other) :
    now.tick.1.Indistinct other.tick.1 ∧ now.tick.2 = other.tick.2 := by
  have phase : other.phase = now.phase := (congrArg View.phase h.view).symm
  rw [tick_eq_steps, tick_eq_steps, phase]
  exact h.steps _

/-! ### One action -/

theorem paint (h : now.Indistinct other) (frame : Frame leds) :
    (now.paint frame).Indistinct (other.paint frame) := by
  obtain ⟨back, published, waits⟩ := h
  exact .lent back published waits

/-- The frame is drawn over whatever is in the back bank, and waits from then on. -/
theorem flush (h : now.Indistinct other) : now.flush.Indistinct other.flush := by
  obtain ⟨back, published, -⟩ := h
  have drawn : back.encode now.canvas.frame now.canvas.layout now.canvas.curve =
      now.canvas.back.encode now.canvas.frame now.canvas.layout now.canvas.curve := by
    rw [Bank.encode_eq_encode_dark back, Bank.encode_eq_encode_dark now.canvas.back]
  have flushed : (now.lend back published).flush =
      now.flush.lend published now.flush.mailbox.published := by
    simp [Controller.flush, lend, Mailbox.publish, drawn]
  rw [flushed]
  exact .lent published _ fun _ => rfl

theorem post (h : now.Indistinct other) (command : Command) :
    Outcomes Indistinct ((now.post command).map (·, [])) ((other.post command).map (·, [])) := by
  obtain ⟨back, published, waits⟩ := h
  cases hq : now.mailbox.queue.push? command with
  | none =>
    rw [post_of_none hq, post_of_none (c := now.lend back published) hq]
    exact .refused _
  | some longer =>
    rw [post_of_some hq, post_of_some (c := now.lend back published) hq]
    exact .done [] (.lent back published waits)

theorem setColor (h : now.Indistinct other) (index : Nat) (color : Color) :
    Outcomes Indistinct ((now.call (.setColor index color)).map (·, []))
      ((other.call (.setColor index color)).map (·, [])) := by
  have frame : other.canvas.frame = now.canvas.frame := (congrArg View.frame h.view).symm
  rw [Controller.call, Controller.call, frame]
  cases now.canvas.frame.set index color with
  | error fault => exact .refused fault
  | ok painted => exact .done [] (h.paint painted)

theorem act (h : now.Indistinct other) (a : Action) :
    Outcomes Indistinct (now.act a) (other.act a) := by
  cases a with
  | step =>
    rw [Controller.act, Controller.act, emit, emit, h.sent]
    exact .done _ h.step
  | tick =>
    obtain ⟨after, sent⟩ := h.tick
    rw [Controller.act, Controller.act, emit, emit, sent]
    exact .done _ after
  | drive _ _ | present _ => exact .done _ h
  | call call =>
    cases call with
    | setColor index color => exact h.setColor index color
    | fill color => exact .done [] (h.paint _)
    | flush => exact .done [] h.flush
    | setGain gain => exact h.post _
    | setOutput on => exact h.post _

end Indistinct

end Controller

/-! ## Panels -/

namespace Panel

/-- Two panels that cannot be told apart: stopped, whatever their storage holds, or
running alike. -/
inductive Indistinct : Panel leds rows cols → Panel leds rows cols → Prop where
  | stopped (wiring : Wiring) (storage other : Banks rows cols) :
      Indistinct ⟨wiring, .stopped storage⟩ ⟨wiring, .stopped other⟩
  | running (wiring : Wiring) {now other : Controller leds rows cols} (h : now.Indistinct other) :
      Indistinct ⟨wiring, .running now⟩ ⟨wiring, .running other⟩

variable {panel other : Panel leds rows cols}

theorem Indistinct.view? (h : panel.Indistinct other) : panel.view? = other.view? := by
  cases h with
  | stopped _ _ _ => rfl
  | running _ alike => exact congrArg some alike.view

namespace Indistinct

variable (timebase : Timebase)

theorem start (h : panel.Indistinct other) (config : Config) (layout : Layout leds) :
    Outcomes Indistinct (panel.start timebase config layout)
      (other.start timebase config layout) := by
  simp only [Panel.start]
  cases Setup.check rows cols config layout with
  | error fault => exact .refused fault
  | ok setup =>
    cases h with
    | stopped wiring storage other =>
      simp only [setup.begin_eq_begin_dark timebase storage,
        setup.begin_eq_begin_dark timebase other]
      exact .done _ (.running wiring (.refl _))
    | running _ _ => exact .refused .alreadyStarted

theorem act (h : panel.Indistinct other) (a : Action) :
    Outcomes Indistinct (panel.act a) (other.act a) := by
  cases h with
  | stopped _ _ _ => exact .refused .notStarted
  | @running wiring now other alike =>
    simp only [Panel.act]
    have outcome := alike.act a
    generalize now.act a = left at outcome
    generalize other.act a = right at outcome
    cases outcome with
    | refused fault => exact .refused fault
    | done trace after => exact .done _ (.running wiring after)

theorem stop (h : panel.Indistinct other) : panel.stop.Indistinct other.stop := by
  cases h with
  | stopped wiring storage other => exact .stopped wiring storage other
  | running wiring _ => exact .stopped wiring _ _

theorem handle (h : panel.Indistinct other) (r : Request leds) :
    Outcomes Indistinct (panel.handle timebase r) (other.handle timebase r) := by
  cases r with
  | start config layout => exact h.start timebase config layout
  | act a => exact h.act a
  | stop => exact .done [] h.stop

theorem observed (h : panel.Indistinct other) (requests : List (Request leds)) :
    panel.observed timebase requests = other.observed timebase requests := by
  induction requests generalizing panel other with
  | nil => rfl
  | cons r rest ih =>
    have served := h.handle timebase r
    rw [Panel.observed, Panel.observed]
    generalize panel.handle timebase r = left at served
    generalize other.handle timebase r = right at served
    cases served with
    | refused fault => rw [h.view?, ih h]
    | done trace after => simp only [after.view?, ih after]

end Indistinct

/-- Panels that are handed storage of any contents, and then serve the same requests, give
the same answers, send the same and can be read alike after each. Nor does it show if a
running controller gets other contents in its back bank or, unless a flushed frame waits
there, in its published bank. -/
theorem leftovers_never_shown (timebase : Timebase) (wiring : Wiring)
    (requests : List (Request leds)) :
    (∀ storage other : Banks rows cols,
      (⟨wiring, .stopped storage⟩ : Panel leds rows cols).observed timebase requests =
        (⟨wiring, .stopped other⟩ : Panel leds rows cols).observed timebase requests) ∧
      ∀ (c : Controller leds rows cols) (back published : Bank rows cols),
        (c.mailbox.waiting = true → published = c.mailbox.published) →
        (⟨wiring, .running c⟩ : Panel leds rows cols).observed timebase requests =
          (⟨wiring, .running (c.lend back published)⟩ : Panel leds rows cols).observed timebase
            requests := by
  refine ⟨fun storage other => ?_, fun c back published waits => ?_⟩
  · exact Indistinct.observed timebase (.stopped wiring storage other) requests
  · exact Indistinct.observed timebase (.running wiring (.lent back published waits)) requests

/-- Storage full of light, handed to a panel that is started twice, flushes and scans;
and a controller whose spare banks are lit while nothing waits. -/
theorem leftovers_never_shown_lit :
    let lit : Bank 2 1 := Bank.dark.put ⟨0, 0⟩ (.pack fun _ => 0xffff)
    let acts : List Action := [.tick, .call (.fill ⟨0, 9, 0⟩), .call .flush, .tick, .tick,
      .call .flush, .tick]
    let requests : List (Request 1) :=
      .start {} #v[⟨0, 0⟩] :: .start {} #v[⟨0, 0⟩] :: acts.map .act
    (⟨.direct, .stopped ⟨lit, lit, lit⟩⟩ : Panel 1 2 1).observed .microseconds requests =
        (⟨.direct, .stopped .dark⟩ : Panel 1 2 1).observed .microseconds requests ∧
      Controller.twoRows.mailbox.waiting = false ∧
      Controller.twoRows.lend lit lit ≠ Controller.twoRows ∧
      (⟨.direct, .running Controller.twoRows⟩ : Panel 1 2 1).observed .microseconds requests =
        (⟨.direct, .running (Controller.twoRows.lend lit lit)⟩ : Panel 1 2 1).observed
          .microseconds requests := by
  intro lit acts requests
  obtain ⟨stopped, running⟩ := leftovers_never_shown .microseconds .direct requests
  refine ⟨stopped ⟨lit, lit, lit⟩ .dark, rfl, fun same => ?_, running _ lit lit nofun⟩
  have back : lit = Bank.dark.clear :=
    congrArg (fun c : Controller 1 2 1 => c.canvas.back) same
  exact absurd (back.trans (Bank.clear_eq_dark _)) (by decide)

end Panel

end LedMatrix

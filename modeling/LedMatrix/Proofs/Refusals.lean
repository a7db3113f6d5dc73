import LedMatrix.Proofs.Effect

/-! # What a refused request leaves behind

`Panel.handle` gives no panel for a request that it refuses. Here requests are
programs that write to the parts of a device one after the other, in the order in
which they check and write, and that leave what they wrote when they are refused.
A refused start may have cleared the storage it was handed; nothing else that is
checked late was written early, so that a run without its refused requests goes
the same way. What the programs do is what a panel does. -/

namespace LedMatrix

variable {leds rows cols : Nat}

/-! ## Programs that check and write -/

/-- What an accepted start hands out: a controller, less the mailbox, and its board. -/
structure Handout (rows cols : Nat) where
  leds : Nat
  wiring : Wiring
  canvas : Canvas leds rows cols
  scanner : Scanner rows cols
  addressable : rows ≤ 256

/-- What requests work on. The mailbox is there before the controller that is to use it. -/
structure Device (rows cols : Nat) where
  mailbox? : Option (Mailbox rows cols)
  handout? : Option (Handout rows cols)
  /-- All that has reached a board or its timer. -/
  sent : Trace

namespace Device

/-- A program that is refused leaves what it wrote before. -/
abbrev Program (rows cols : Nat) := EStateM Fault (Device rows cols)

/-- Goes on with the controller that was handed out, and its board. -/
def withController
    (p : (leds : Nat) → Wiring → Controller leds rows cols → Program rows cols Unit) :
    Program rows cols Unit := do
  let device ← get
  match device.mailbox?, device.handout? with
  | some mailbox, some out =>
    p out.leds out.wiring ⟨out.canvas, mailbox, out.scanner, out.addressable⟩
  | _, _ => throw .notStarted

def overwrite (wiring : Wiring) (c : Controller leds rows cols) : Program rows cols Unit :=
  modify fun device =>
    { device with
      mailbox? := some c.mailbox
      handout? := some ⟨leds, wiring, c.canvas, c.scanner, c.addressable⟩ }

def emit (wiring : Wiring) (trace : Trace) : Program rows cols Unit :=
  modify fun device => { device with sent := device.sent ++ wiring.carryAll trace }

def setColor (index : Nat) (color : Color) : Program rows cols Unit :=
  withController fun leds wiring c =>
    if h : index < leds then
      overwrite wiring (c.paint ⟨c.canvas.frame.colors.set index color h⟩)
    else throw (.indexOutOfRange index leds)

def post (command : Command) : Program rows cols Unit :=
  withController fun _ wiring c =>
    match c.mailbox.queue.push? command with
    | some queue => overwrite wiring (c.queued queue)
    | none => throw (.queueFull command)

def scan
    (f : (leds : Nat) → Controller leds rows cols →
      Controller leds rows cols × List (Instruction cols)) : Program rows cols Unit :=
  withController fun leds wiring c => do
    overwrite wiring (f leds c).1
    emit wiring ((f leds c).2.flatMap Instruction.signals)

def act : Action → Program rows cols Unit
  | .call (.setColor index color) => setColor index color
  | .call (.fill color) =>
    withController fun _ wiring c => overwrite wiring (c.paint (c.canvas.frame.fill color))
  | .call .flush => withController fun _ wiring c => overwrite wiring c.flush
  | .call (.setGain gain) => post (.setGain (gain &&& Register.gainMask))
  | .call (.setOutput on) => post (.setOutput on)
  | .step => scan fun _ => Controller.step
  | .tick => scan fun _ => Controller.tick
  | .drive line level => withController fun _ wiring _ => emit wiring [.drive line level]
  | .present word => withController fun _ wiring _ => emit wiring [.present word]

/-- Takes the mailbox into use; one that is in use already is not given away again. -/
def install (mailbox : Mailbox rows cols) : Program rows cols Unit := do
  let device ← get
  if device.mailbox?.isSome then throw .alreadyStarted
  else set { device with mailbox? := some mailbox }

/-- Sets up the timer and the chips, and hands the controller out. -/
def bringUp (timebase : Timebase) (wiring : Wiring) (setup : Setup leds rows cols)
    (fresh : Controller leds rows cols) : Program rows cols Unit := do
  emit wiring [.timerPeriod (setup.period timebase)]
  emit wiring ((Controller.bringUp rows cols setup.config).flatMap Instruction.signals)
  emit wiring [.timerOn]
  modify fun device =>
    { device with
      handout? := some ⟨leds, wiring, fresh.canvas, fresh.scanner, fresh.addressable⟩ }

end Device

/-- A device, and the storage that was handed to the last attempt to start it. -/
structure Bench (rows cols : Nat) where
  spare : Banks rows cols
  device : Device rows cols

namespace Bench

abbrev Program (rows cols : Nat) := EStateM Fault (Bench rows cols)

def onDevice {α : Type} (p : Device.Program rows cols α) : Program rows cols α :=
  fun bench =>
    match p bench.device with
    | .ok a device => .ok a { bench with device }
    | .error fault device => .error fault { bench with device }

/-- Clears the storage and hands it to the device. Only now it shows whether the mailbox
is free. -/
def occupy (timebase : Timebase) (wiring : Wiring) (setup : Setup leds rows cols) :
    Program rows cols Unit := do
  modify fun bench => { bench with spare := bench.spare.clear }
  let bench ← get
  let fresh := setup.controller bench.spare
  onDevice (Device.install fresh.mailbox)
  onDevice (Device.bringUp timebase wiring setup fresh)

/-- Starts the device with the storage that is handed in. -/
def start (timebase : Timebase) (wiring : Wiring) (config : Config) (layout : Layout leds)
    (storage : Banks rows cols) : Program rows cols Unit := do
  modify fun bench => { bench with spare := storage }
  let setup ← MonadExcept.ofExcept (Setup.check rows cols config layout)
  occupy timebase wiring setup

end Bench

/-- A request other than a stop. Every start brings LEDs, a board and storage of its own. -/
inductive Attempt (rows cols : Nat) where
  | start {leds : Nat} (wiring : Wiring) (config : Config) (layout : Layout leds)
    (storage : Banks rows cols)
  | act (action : Action)

def Attempt.program (timebase : Timebase) : Attempt rows cols → Bench.Program rows cols Unit
  | .start wiring config layout storage => Bench.start timebase wiring config layout storage
  | .act action => Bench.onDevice (Device.act action)

/-- A request to one panel other than a stop, with the storage that a start is handed. -/
inductive Panel.Ask (leds rows cols : Nat) where
  | start (config : Config) (layout : Layout leds) (storage : Banks rows cols)
  | act (action : Action)

namespace Panel.Ask

def request : Ask leds rows cols → Request leds
  | .start config layout _ => .start config layout
  | .act action => .act action

def attempt (wiring : Wiring) : Ask leds rows cols → Attempt rows cols
  | .start config layout storage => .start wiring config layout storage
  | .act action => .act action

end Panel.Ask

namespace Bench

variable (timebase : Timebase)

def answer (bench : Bench rows cols) (attempt : Attempt rows cols) : Except Fault Unit :=
  match attempt.program timebase bench with
  | .ok _ _ => .ok ()
  | .error fault _ => .error fault

def next (bench : Bench rows cols) (attempt : Attempt rows cols) : Bench rows cols :=
  match attempt.program timebase bench with
  | .ok _ bench | .error _ bench => bench

def after (bench : Bench rows cols) (attempts : List (Attempt rows cols)) : Bench rows cols :=
  attempts.foldl (next timebase) bench

/-- What is answered to some attempts, and how each leaves the device. -/
def outcomes (bench : Bench rows cols) :
    List (Attempt rows cols) → List (Except Fault Unit × Device rows cols)
  | [] => []
  | attempt :: rest =>
    (bench.answer timebase attempt, (bench.next timebase attempt).device) ::
      outcomes (bench.next timebase attempt) rest

/-- Those that are not refused, when each is attempted as `f` says. -/
def accepted {α : Type} (f : α → Attempt rows cols) (bench : Bench rows cols) : List α → List α
  | [] => []
  | a :: rest =>
    if (bench.answer timebase (f a)).isOk then a :: accepted f (bench.next timebase (f a)) rest
    else accepted f (bench.next timebase (f a)) rest

end Bench

/-! ## First the checks, then the writing -/

namespace Program

variable {σ δ α β : Type} {view : σ → δ} {p : EStateM Fault σ α} {k : α → EStateM Fault σ β}

/-- Never refused. -/
def Sure (p : EStateM Fault σ α) : Prop := ∀ s, ∃ a next, p s = .ok a next

/-- Writes nothing that is viewed. -/
def Checks (view : σ → δ) (p : EStateM Fault σ α) : Prop :=
  ∀ s, match p s with
    | .ok _ next | .error _ next => view next = view s

/-- Has written nothing that is viewed if it is refused. -/
def Clean (view : σ → δ) (p : EStateM Fault σ α) : Prop :=
  ∀ s fault next, p s = .error fault next → view next = view s

theorem bind_of_ok {s next : σ} {a : α} (h : p s = .ok a next) : (p >>= k) s = k a next := by
  simp only [Bind.bind, EStateM.bind, h]

theorem bind_of_error {s next : σ} {fault : Fault} (h : p s = .error fault next) :
    (p >>= k) s = .error fault next := by
  simp only [Bind.bind, EStateM.bind, h]

theorem Sure.clean (h : Sure p) : Clean view p := by
  intro s fault next refused
  obtain ⟨a, done, ok⟩ := h s
  rw [ok] at refused
  cases refused

theorem Checks.clean (h : Checks view p) : Clean view p := by
  intro s fault next refused
  have same := h s
  rw [refused] at same
  exact same

theorem Clean.throw (fault : Fault) : Clean view (throw fault : EStateM Fault σ α) := by
  intro s _ next refused
  cases refused
  rfl

theorem Sure.modify (f : σ → σ) : Sure (modify f : EStateM Fault σ Unit) := fun _ => ⟨_, _, rfl⟩

theorem Sure.bind (hp : Sure p) (hk : ∀ a, Sure (k a)) : Sure (p >>= k) := by
  intro s
  obtain ⟨a, next, done⟩ := hp s
  rw [bind_of_ok done]
  exact hk a next

theorem Checks.get : Checks view (get : EStateM Fault σ σ) := fun _ => rfl

theorem Checks.ofExcept (result : Except Fault α) :
    Checks view (MonadExcept.ofExcept result : EStateM Fault σ α) := by
  intro s
  cases result <;> rfl

/-- What checks may come before anything that is clean. -/
theorem Checks.bind (hp : Checks view p) (hk : ∀ a, Clean view (k a)) : Clean view (p >>= k) := by
  intro s fault next refused
  cases ran : p s with
  | ok a later =>
    have same := hp s
    rw [bind_of_ok ran] at refused
    rw [ran] at same
    exact (hk a later fault next refused).trans same
  | error _ _ =>
    rw [bind_of_error ran] at refused
    cases refused
    exact hp.clean s _ _ ran

/-- What is never refused may follow anything that is clean. -/
theorem Clean.bind (hp : Clean view p) (hk : ∀ a, Sure (k a)) : Clean view (p >>= k) := by
  intro s fault next refused
  cases ran : p s with
  | ok a later =>
    obtain ⟨b, last, done⟩ := hk a later
    rw [bind_of_ok ran, done] at refused
    cases refused
  | error _ _ =>
    rw [bind_of_error ran] at refused
    cases refused
    exact hp s _ _ ran

end Program

open Program

namespace Device

theorem clean_withController
    {p : (leds : Nat) → Wiring → Controller leds rows cols → Program rows cols Unit}
    (h : ∀ leds wiring (c : Controller leds rows cols), Clean id (p leds wiring c)) :
    Clean id (withController p) := by
  refine Checks.get.bind fun device => ?_
  split
  · exact h _ _ _
  · exact .throw _

theorem sure_overwrite (wiring : Wiring) (c : Controller leds rows cols) :
    Sure (overwrite wiring c) := .modify _

theorem sure_emit (wiring : Wiring) (trace : Trace) :
    Sure (emit wiring trace : Program rows cols Unit) := .modify _

theorem clean_setColor (index : Nat) (color : Color) :
    Clean id (setColor index color : Program rows cols Unit) := by
  refine clean_withController fun leds wiring c => ?_
  split
  · exact (sure_overwrite _ _).clean
  · exact .throw _

theorem clean_post (command : Command) :
    Clean id (post command : Program rows cols Unit) := by
  refine clean_withController fun leds wiring c => ?_
  split
  · exact (sure_overwrite _ _).clean
  · exact .throw _

theorem clean_scan
    (f : (leds : Nat) → Controller leds rows cols →
      Controller leds rows cols × List (Instruction cols)) : Clean id (scan f) :=
  clean_withController fun _ _ _ => (Sure.bind (sure_overwrite _ _) fun _ => sure_emit _ _).clean

theorem clean_act (action : Action) : Clean id (act action : Program rows cols Unit) := by
  cases action with
  | step => exact clean_scan fun _ => Controller.step
  | tick => exact clean_scan fun _ => Controller.tick
  | drive _ _ | present _ =>
    rw [act]
    exact clean_withController fun _ _ _ => (sure_emit _ _).clean
  | call call =>
    cases call with
    | fill _ | flush =>
      rw [act]
      exact clean_withController fun _ _ _ => (sure_overwrite _ _).clean
    | setGain _ | setOutput _ => exact clean_post _
    | setColor index color => exact clean_setColor index color

theorem clean_install (mailbox : Mailbox rows cols) :
    Clean id (install mailbox : Program rows cols Unit) := by
  refine Checks.get.bind fun device => ?_
  split
  · exact .throw _
  · exact Sure.clean fun _ => ⟨_, _, rfl⟩

theorem sure_bringUp (timebase : Timebase) (wiring : Wiring) (setup : Setup leds rows cols)
    (fresh : Controller leds rows cols) : Sure (bringUp timebase wiring setup fresh) :=
  .bind (sure_emit _ _) fun _ => .bind (sure_emit _ _) fun _ =>
    .bind (sure_emit _ _) fun _ => .modify _

end Device

namespace Bench

theorem onDevice_eq_ok {α : Type} {p : Device.Program rows cols α} {bench : Bench rows cols}
    {a : α} {device : Device rows cols} (h : p bench.device = .ok a device) :
    onDevice p bench = .ok a { bench with device } := by
  rw [onDevice, h]

theorem onDevice_eq_error {α : Type} {p : Device.Program rows cols α} {bench : Bench rows cols}
    {fault : Fault} {device : Device rows cols} (h : p bench.device = .error fault device) :
    onDevice p bench = .error fault { bench with device } := by
  rw [onDevice, h]

theorem clean_onDevice {α : Type} {p : Device.Program rows cols α} (h : Clean id p) :
    Clean device (onDevice p) := by
  intro bench fault next refused
  cases hp : p bench.device with
  | ok a device =>
    rw [onDevice_eq_ok hp] at refused
    cases refused
  | error _ device =>
    rw [onDevice_eq_error hp] at refused
    cases refused
    exact h bench.device _ _ hp

theorem sure_onDevice {α : Type} {p : Device.Program rows cols α} (h : Sure p) :
    Sure (onDevice p) := by
  intro bench
  obtain ⟨a, device, done⟩ := h bench.device
  exact ⟨_, _, onDevice_eq_ok done⟩

/-- Storage is not part of the device. -/
theorem checks_spare (f : Banks rows cols → Banks rows cols) :
    Checks device
      (modify fun bench => { bench with spare := f bench.spare } : Program rows cols Unit) :=
  fun _ => rfl

variable {timebase : Timebase}

theorem clean_occupy (wiring : Wiring) (setup : Setup leds rows cols) :
    Clean device (occupy timebase wiring setup) := by
  refine (checks_spare Banks.clear).bind fun _ => ?_
  refine Checks.get.bind fun bench => ?_
  refine (clean_onDevice (Device.clean_install _)).bind fun _ => ?_
  exact sure_onDevice (Device.sure_bringUp _ _ _ _)

theorem clean_start (wiring : Wiring) (config : Config) (layout : Layout leds)
    (storage : Banks rows cols) : Clean device (start timebase wiring config layout storage) := by
  refine (checks_spare fun _ => storage).bind fun _ => ?_
  exact (Checks.ofExcept _).bind fun setup => clean_occupy wiring setup

end Bench

theorem Attempt.clean_program (timebase : Timebase) (attempt : Attempt rows cols) :
    Clean Bench.device (attempt.program timebase) := by
  cases attempt with
  | start wiring config layout storage => exact Bench.clean_start wiring config layout storage
  | act action => exact Bench.clean_onDevice (Device.clean_act action)

/-! ## Runs without the refused attempts -/

namespace Bench

variable {timebase : Timebase} {bench other : Bench rows cols} {attempt : Attempt rows cols}

theorem device_next_of_refused {fault : Fault}
    (h : bench.answer timebase attempt = .error fault) :
    (bench.next timebase attempt).device = bench.device := by
  unfold answer at h
  unfold next
  cases ran : attempt.program timebase bench with
  | ok _ _ => simp [ran] at h
  | error _ _ => exact attempt.clean_program timebase bench _ _ ran

section Accepted

variable {α : Type} {f : α → Attempt rows cols} {a : α}

theorem accepted_of_ok (h : bench.answer timebase (f a) = .ok ()) (rest : List α) :
    bench.accepted timebase f (a :: rest) =
      a :: (bench.next timebase (f a)).accepted timebase f rest := by
  rw [accepted, h]
  rfl

theorem accepted_of_refused {fault : Fault} (h : bench.answer timebase (f a) = .error fault)
    (rest : List α) :
    bench.accepted timebase f (a :: rest) =
      (bench.next timebase (f a)).accepted timebase f rest := by
  rw [accepted, h]
  rfl

end Accepted

/-- An attempt is handed its storage, and so takes no notice of what is there. -/
theorem attempt_congr (h : bench.device = other.device) (attempt : Attempt rows cols) :
    bench.answer timebase attempt = other.answer timebase attempt ∧
      (bench.next timebase attempt).device = (other.next timebase attempt).device := by
  obtain ⟨spare, device⟩ := bench
  obtain ⟨_, _⟩ := other
  obtain rfl : device = _ := h
  cases attempt with
  | start wiring config layout storage => exact ⟨rfl, rfl⟩
  | act action =>
    cases ran : Device.act action device <;>
      simp [answer, next, Attempt.program, onDevice, ran]

theorem outcomes_congr (h : bench.device = other.device) (attempts : List (Attempt rows cols)) :
    bench.outcomes timebase attempts = other.outcomes timebase attempts := by
  induction attempts generalizing bench other with
  | nil => rfl
  | cons attempt rest ih =>
    obtain ⟨answer, device⟩ := attempt_congr h attempt
    rw [outcomes, outcomes, answer, device, ih device]

theorem outcomes_accepted (h : bench.device = other.device)
    (attempts : List (Attempt rows cols)) :
    let accepted := other.accepted timebase id attempts
    bench.outcomes timebase accepted =
        (other.outcomes timebase attempts).filter (fun outcome => outcome.1.isOk) ∧
      (bench.after timebase accepted).device = (other.after timebase attempts).device := by
  induction attempts generalizing bench other with
  | nil => exact ⟨rfl, h⟩
  | cons attempt rest ih =>
    obtain ⟨answer, device⟩ := attempt_congr h attempt
    cases hr : other.answer timebase attempt with
    | ok _ =>
      obtain ⟨outcomes, after⟩ := ih device
      rw [accepted_of_ok hr]
      refine ⟨?_, after⟩
      rw [Bench.outcomes, Bench.outcomes, id, outcomes, answer, device, hr]
      rfl
    | error fault =>
      have same := device_next_of_refused hr
      rw [accepted_of_refused hr, Bench.outcomes, hr]
      exact ih (h.trans same.symm)

end Bench

/-! ## The programs do what a panel does -/

def Controller.device (c : Controller leds rows cols) (wiring : Wiring) (sent : Trace) :
    Device rows cols :=
  ⟨some c.mailbox, some ⟨leds, wiring, c.canvas, c.scanner, c.addressable⟩, sent⟩

/-- What requests to a panel work on. -/
def Panel.device (panel : Panel leds rows cols) (sent : Trace) : Device rows cols :=
  match panel.operation with
  | .stopped _ => ⟨none, none, sent⟩
  | .running c => c.device panel.wiring sent

namespace Device

variable {c : Controller leds rows cols} {wiring : Wiring} {sent : Trace}

theorem withController_device (c : Controller leds rows cols)
    (p : (leds : Nat) → Wiring → Controller leds rows cols → Program rows cols Unit) :
    withController p (c.device wiring sent) = p leds wiring c (c.device wiring sent) := rfl

theorem setColor_device (c : Controller leds rows cols) (index : Nat) (color : Color) :
    setColor index color (c.device wiring sent) =
      match c.call (.setColor index color) with
      | .ok next => .ok () (next.device wiring sent)
      | .error fault => .error fault (c.device wiring sent) := by
  rw [setColor, withController_device, Controller.call]
  split
  · rename_i inside
    rw [Frame.set_of_lt color inside]
    rfl
  · rename_i outside
    rw [Frame.set_of_le color (Nat.le_of_not_lt outside)]
    rfl

theorem post_device (c : Controller leds rows cols) (command : Command) :
    post command (c.device wiring sent) =
      match c.post command with
      | .ok next => .ok () (next.device wiring sent)
      | .error fault => .error fault (c.device wiring sent) := by
  rw [post, withController_device]
  cases hq : c.mailbox.queue.push? command with
  | none =>
    rw [Controller.post_of_none hq]
    rfl
  | some queue =>
    rw [Controller.post_of_some hq]
    rfl

theorem call_device (c : Controller leds rows cols) (call : Call) :
    act (.call call) (c.device wiring sent) =
      match c.call call with
      | .ok next => .ok () (next.device wiring sent)
      | .error fault => .error fault (c.device wiring sent) := by
  cases call with
  | fill _ | flush => rfl
  | setGain _ | setOutput _ => exact post_device c _
  | setColor index color => exact setColor_device c index color

end Device

theorem Panel.device_act (panel : Panel leds rows cols) (sent : Trace) (action : Action) :
    Device.act action (panel.device sent) =
      match panel.act action with
      | .ok (next, trace) => .ok () (next.device (sent ++ trace))
      | .error fault => .error fault (panel.device sent) := by
  obtain ⟨wiring, operation⟩ := panel
  cases operation with
  | stopped storage =>
    cases action with
    | call call => cases call <;> rfl
    | step | tick | drive _ _ | present _ => rfl
  | running c =>
    cases action with
    | step | tick | drive _ _ | present _ => rfl
    | call call =>
      have acts : c.act (.call call) = (c.call call).map (·, []) := rfl
      simp only [Panel.device, Device.call_device, Panel.act, acts]
      cases c.call call with
      | error _ => rfl
      | ok next => simp [Except.map]

namespace Bench

variable (timebase : Timebase) {bench : Bench rows cols} {panel : Panel leds rows cols}
  {sent : Trace}

theorem occupy_stopped (wiring : Wiring) (setup : Setup leds rows cols)
    (storage dirty : Banks rows cols) (sent : Trace) :
    let begun := setup.begin timebase dirty
    occupy timebase wiring setup ⟨storage, ⟨none, none, sent⟩⟩ =
      .ok () ⟨storage.clear, begun.1.device wiring (sent ++ wiring.carryAll begun.2)⟩ := by
  have cleared : setup.begin timebase dirty = setup.begin timebase storage.clear := by
    rw [setup.begin_eq_begin_dark timebase dirty, ← setup.begin_eq_begin_dark]
  dsimp only
  rw [cleared, Setup.begin, Controller.carryAll_startTrace, ← List.append_assoc,
    ← List.append_assoc]
  rfl

theorem occupy_running (wiring : Wiring) (setup : Setup leds rows cols)
    (storage : Banks rows cols) {others : Nat} (c : Controller others rows cols) (own : Wiring)
    (sent : Trace) :
    occupy timebase wiring setup ⟨storage, c.device own sent⟩ =
      .error .alreadyStarted ⟨storage.clear, c.device own sent⟩ := rfl

theorem start_device (panel : Panel leds rows cols) (sent : Trace) (config : Config)
    (layout : Layout leds) (storage spare : Banks rows cols) :
    match panel.start timebase config layout with
    | .ok (next, trace) =>
      start timebase panel.wiring config layout storage ⟨spare, panel.device sent⟩ =
        .ok () ⟨storage.clear, next.device (sent ++ trace)⟩
    | .error fault =>
      ∃ last, start timebase panel.wiring config layout storage ⟨spare, panel.device sent⟩ =
        .error fault last := by
  obtain ⟨wiring, operation⟩ := panel
  have lent (bench : Bench rows cols) :
      start timebase wiring config layout storage bench =
        (MonadExcept.ofExcept (Setup.check rows cols config layout) >>= occupy timebase wiring)
          ⟨storage, bench.device⟩ := rfl
  simp only [Panel.start, lent]
  cases Setup.check rows cols config layout with
  | error fault => exact ⟨_, rfl⟩
  | ok setup =>
    cases operation with
    | stopped dirty => exact occupy_stopped timebase wiring setup storage dirty sent
    | running c => exact ⟨_, occupy_running timebase wiring setup storage c wiring sent⟩

/-- An attempt is answered as a panel answers the request. -/
theorem answer_device (ask : Panel.Ask leds rows cols) (h : bench.device = panel.device sent) :
    bench.answer timebase (ask.attempt panel.wiring) =
      (panel.handle timebase ask.request).map fun _ => () := by
  obtain ⟨spare, _⟩ := bench
  obtain rfl := h
  cases ask with
  | start config layout storage =>
    have ran := start_device timebase panel sent config layout storage spare
    rw [Panel.Ask.request, Panel.handle]
    cases hs : panel.start timebase config layout with
    | ok started =>
      rw [hs] at ran
      simp [answer, Panel.Ask.attempt, Attempt.program, ran, Except.map]
    | error fault =>
      rw [hs] at ran
      obtain ⟨last, ran⟩ := ran
      simp [answer, Panel.Ask.attempt, Attempt.program, ran, Except.map]
  | act action =>
    have ran := panel.device_act sent action
    rw [Panel.Ask.request, Panel.handle]
    cases ha : panel.act action <;>
    · rw [ha] at ran
      simp [answer, Panel.Ask.attempt, Attempt.program, onDevice, ran, Except.map]

/-- An attempt leaves the device as the request leaves the panel. -/
theorem device_next_of_handle {ask : Panel.Ask leds rows cols} {next : Panel leds rows cols}
    {trace : Trace} (h : bench.device = panel.device sent)
    (handled : panel.handle timebase ask.request = .ok (next, trace)) :
    (bench.next timebase (ask.attempt panel.wiring)).device = next.device (sent ++ trace) := by
  obtain ⟨spare, _⟩ := bench
  obtain rfl := h
  cases ask with
  | start config layout storage =>
    have ran := start_device timebase panel sent config layout storage spare
    rw [Panel.Ask.request, Panel.handle] at handled
    rw [handled] at ran
    simp [Bench.next, Panel.Ask.attempt, Attempt.program, ran]
  | act action =>
    have ran := panel.device_act sent action
    rw [Panel.Ask.request, Panel.handle] at handled
    rw [handled] at ran
    simp [Bench.next, Panel.Ask.attempt, Attempt.program, onDevice, ran]

/-- A panel that is not asked what it would refuse serves the rest in the same way. -/
theorem serve_accepted (h : bench.device = panel.device sent)
    (asks : List (Panel.Ask leds rows cols)) :
    panel.serve timebase
        ((bench.accepted timebase (Panel.Ask.attempt panel.wiring) asks).map Panel.Ask.request) =
      panel.serve timebase (asks.map Panel.Ask.request) := by
  induction asks generalizing bench panel sent with
  | nil => rfl
  | cons ask rest ih =>
    have answer := answer_device timebase ask h
    cases handled : panel.handle timebase ask.request with
    | ok served =>
      rw [handled] at answer
      have later := ih (device_next_of_handle timebase h handled)
      rw [Panel.wiring_of_handle handled] at later
      rw [accepted_of_ok answer, List.map_cons, List.map_cons, Panel.serve, Panel.serve, handled]
      simp only [later]
    | error fault =>
      rw [handled] at answer
      rw [accepted_of_refused answer, List.map_cons, Panel.serve, handled]
      exact ih ((device_next_of_refused answer).trans h)

/-- A start, a call or a command that is refused changes nothing and sends nothing, whatever
LEDs and board it is for; so a run goes the same way without it. A panel does the same. -/
theorem refused_changes_nothing (timebase : Timebase) (bench : Bench rows cols) :
    (∀ attempt fault, bench.answer timebase attempt = .error fault →
      (bench.next timebase attempt).device = bench.device) ∧
      (∀ attempts,
        let accepted := bench.accepted timebase id attempts
        bench.outcomes timebase accepted =
            (bench.outcomes timebase attempts).filter (fun outcome => outcome.1.isOk) ∧
          (bench.after timebase accepted).device = (bench.after timebase attempts).device ∧
          ∀ later, (bench.after timebase accepted).outcomes timebase later =
            (bench.after timebase attempts).outcomes timebase later) ∧
      ∀ leds (panel : Panel leds rows cols) sent, bench.device = panel.device sent →
        (∀ ask : Panel.Ask leds rows cols,
          bench.answer timebase (ask.attempt panel.wiring) =
              (panel.handle timebase ask.request).map (fun _ => ()) ∧
            ∀ next trace, panel.handle timebase ask.request = .ok (next, trace) →
              (bench.next timebase (ask.attempt panel.wiring)).device =
                next.device (sent ++ trace)) ∧
          ∀ asks : List (Panel.Ask leds rows cols),
            panel.serve timebase
                ((bench.accepted timebase (Panel.Ask.attempt panel.wiring) asks).map
                  Panel.Ask.request) =
              panel.serve timebase (asks.map Panel.Ask.request) := by
  refine ⟨fun attempt fault => device_next_of_refused, fun attempts => ?_,
    fun leds panel sent h => ⟨fun ask => ⟨answer_device timebase ask h, ?_⟩,
      serve_accepted timebase h⟩⟩
  · have same : bench.device = bench.device := rfl
    obtain ⟨outcomes, after⟩ := outcomes_accepted same attempts
    exact ⟨outcomes, after, fun later => outcomes_congr after later⟩
  · exact fun next trace => device_next_of_handle timebase h

/-- Requests that are refused before a start, at a start, after it and within a tick, for
every reason that a grid of two rows can give; one start is for another board. -/
theorem refused_changes_nothing_two_rows :
    let panel : Panel 1 2 1 := .unstarted .direct
    let bench : Bench 2 1 := ⟨.dark, panel.device []⟩
    let gain : Panel.Ask 1 2 1 := .act (.call (.setGain 7))
    let asks : List (Panel.Ask 1 2 1) :=
      [.act (.call .flush), .start { refreshRate := 0 } #v[⟨0, 0⟩] .dark,
        .start {} #v[⟨2, 0⟩] .dark, .start {} #v[⟨0, 0⟩] .dark, .start {} #v[⟨0, 0⟩] .dark,
        .act .step, .act (.call (.setColor 1 .off)), gain, gain, gain, gain, gain, .act .step]
    let attempts : List (Attempt 2 1) :=
      .start .bus {} #v[⟨0, 0⟩, ⟨2, 0⟩] .dark :: asks.map (·.attempt .direct) ++
        [.start .bus {} #v[⟨0, 0⟩, ⟨1, 0⟩] .dark]
    (bench.outcomes .microseconds attempts).map Prod.fst =
        [.error (.positionOutOfRange 1 ⟨2, 0⟩), .error .notStarted,
          .error (.invalidRefreshRate 0), .error (.positionOutOfRange 0 ⟨2, 0⟩), .ok (),
          .error .alreadyStarted, .ok (), .error (.indexOutOfRange 1 1), .ok (), .ok (),
          .ok (), .ok (), .error (.queueFull (.setGain 7)), .ok (), .error .alreadyStarted] ∧
      (bench.accepted .microseconds id attempts).length = 7 ∧
      (bench.next .microseconds (.act (.call .flush))).device = bench.device ∧
      bench.outcomes .microseconds (bench.accepted .microseconds id attempts) =
        (bench.outcomes .microseconds attempts).filter (fun outcome => outcome.1.isOk) ∧
      panel.serve .microseconds
          ((bench.accepted .microseconds (Panel.Ask.attempt .direct) asks).map
            Panel.Ask.request) =
        panel.serve .microseconds (asks.map Panel.Ask.request) := by
  intro panel bench gain asks attempts
  obtain ⟨unchanged, runs, panels⟩ := refused_changes_nothing .microseconds bench
  have first : bench.answer .microseconds (.act (.call .flush)) = .error .notStarted := rfl
  exact ⟨by decide +kernel, by decide +kernel, unchanged _ _ first, (runs attempts).1,
    (panels 1 panel [] rfl).2 asks⟩

end Bench

end LedMatrix

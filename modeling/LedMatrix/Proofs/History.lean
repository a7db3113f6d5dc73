import LedMatrix.Panel
import Mathlib.Data.List.Induction

/-! # What happened in a run

A tick is cut into its steps, so that a run becomes a list of moments: single
actions, each with the controller it met. The moments of a run explain its
trace and its last state, and what the start establishes and every moment keeps
holds at every point of every run. -/

namespace LedMatrix

/-- An action other than a tick, and the controller it met. -/
structure Moment (leds rows cols : Nat) where
  before : Controller leds rows cols
  action : Action

namespace Moment

variable {leds rows cols : Nat}

def trace (m : Moment leds rows cols) : Trace := (m.before.run [m.action]).2

def isCall (m : Moment leds rows cols) : Bool :=
  match m.action with
  | .call _ => true
  | _ => false

def isFlush (m : Moment leds rows cols) : Bool := m.action = .call .flush

/-- A step that runs the given phase. -/
def runs (phase : Phase) (m : Moment leds rows cols) : Bool :=
  m.action = .step ∧ m.before.phase = phase

/-- The step at which a waiting bank would be adopted. -/
def beginsScan (m : Moment leds rows cols) : Bool := m.runs .idle ∧ m.before.row.val = 0

/-- The step that lights the last row. -/
def endsScan (m : Moment leds rows cols) : Bool :=
  m.runs .select ∧ m.before.row.val + 1 = rows

end Moment

namespace Controller

variable {leds rows cols : Nat} {c : Controller leds rows cols}

/-! ## Cutting a run into moments -/

/-- A tick as the steps that are left of it; any other action as it is. -/
def pieces (c : Controller leds rows cols) : Action → List Action
  | .tick => List.replicate c.phase.left .step
  | a => [a]

/-- The actions of a run with every tick cut into steps. -/
def cut (c : Controller leds rows cols) : List Action → List Action
  | [] => []
  | a :: rest => c.pieces a ++ (c.run [a]).1.cut rest

def momentsOf (c : Controller leds rows cols) : List Action → List (Moment leds rows cols)
  | [] => []
  | a :: rest => ⟨c, a⟩ :: (c.run [a]).1.momentsOf rest

/-- What happened in a run, the earliest moment first. -/
def history (c : Controller leds rows cols) (actions : List Action) :
    List (Moment leds rows cols) := c.momentsOf (c.cut actions)

theorem run_cons (c : Controller leds rows cols) (a : Action) (rest : List Action) :
    c.run (a :: rest) =
      (((c.run [a]).1.run rest).1, (c.run [a]).2 ++ ((c.run [a]).1.run rest).2) :=
  c.run_append [a] rest

theorem run_step (c : Controller leds rows cols) : c.run [.step] = emit c.step := by
  simp [run, act]

theorem run_step_fst (c : Controller leds rows cols) : (c.run [.step]).1 = c.step.1 := by
  rw [run_step, emit]

theorem run_tick (c : Controller leds rows cols) : c.run [.tick] = emit c.tick := by
  simp [run, act]

theorem run_replicate_step (n : Nat) (c : Controller leds rows cols) :
    c.run (List.replicate n .step) = emit (c.steps n) := by
  induction n generalizing c with
  | zero => rfl
  | succ n ih =>
    rw [List.replicate_succ, run_cons, run_step]
    simp [ih, emit, steps]

theorem run_pieces (c : Controller leds rows cols) (a : Action) :
    c.run (c.pieces a) = c.run [a] := by
  cases a with
  | tick =>
    rw [pieces, run_replicate_step, run_tick, tick_eq_steps]
  | call _ | step | drive _ _ | present _ => rfl

theorem run_cut (c : Controller leds rows cols) (actions : List Action) :
    c.run (c.cut actions) = c.run actions := by
  induction actions generalizing c with
  | nil => rfl
  | cons a rest ih =>
    rw [cut, run_append, run_pieces, ih, ← run_cons]

theorem mem_pieces {c : Controller leds rows cols} {a b : Action} (h : b ∈ c.pieces a) :
    b ≠ .tick ∧ (b = a ∨ b = .step) := by
  cases a with
  | tick =>
    obtain ⟨_, hb⟩ := List.mem_replicate.mp h
    subst hb
    exact ⟨nofun, .inr rfl⟩
  | call _ | step | drive _ _ | present _ =>
    have hb := List.mem_singleton.mp h
    subst hb
    exact ⟨nofun, .inl rfl⟩

theorem mem_cut {c : Controller leds rows cols} {actions : List Action} {b : Action}
    (h : b ∈ c.cut actions) : b ≠ .tick ∧ (b ∈ actions ∨ b = .step) := by
  induction actions generalizing c with
  | nil => cases h
  | cons a rest ih =>
    rcases List.mem_append.mp h with h | h
    · obtain ⟨hb, he | he⟩ := mem_pieces h
      · exact ⟨hb, .inl (he ▸ List.mem_cons_self)⟩
      · exact ⟨hb, .inr he⟩
    · obtain ⟨hb, he | he⟩ := ih h
      · exact ⟨hb, .inl (List.mem_cons_of_mem a he)⟩
      · exact ⟨hb, .inr he⟩

/-! ## Moments explain the run -/

theorem momentsOf_append (c : Controller leds rows cols) (s t : List Action) :
    c.momentsOf (s ++ t) = c.momentsOf s ++ (c.run s).1.momentsOf t := by
  induction s generalizing c with
  | nil => rfl
  | cons a s ih =>
    rw [List.cons_append, momentsOf, momentsOf, ih, run_cons c a s, List.cons_append]

theorem trace_momentsOf (c : Controller leds rows cols) (actions : List Action) :
    (c.momentsOf actions).flatMap Moment.trace = (c.run actions).2 := by
  induction actions generalizing c with
  | nil => rfl
  | cons a rest ih =>
    rw [momentsOf, List.flatMap_cons, ih, run_cons c a rest]
    rfl

theorem trace_history (c : Controller leds rows cols) (actions : List Action) :
    (c.history actions).flatMap Moment.trace = (c.run actions).2 := by
  rw [history, trace_momentsOf, run_cut]

/-- Splitting the moments at one of them splits the actions there. -/
theorem momentsOf_eq_append_cons {actions : List Action}
    {older newer : List (Moment leds rows cols)} {m : Moment leds rows cols}
    (h : c.momentsOf actions = older ++ m :: newer) :
    ∃ s t, actions = s ++ m.action :: t ∧ older = c.momentsOf s ∧ m.before = (c.run s).1 := by
  induction actions generalizing c older with
  | nil => simp [momentsOf] at h
  | cons a rest ih =>
    rw [momentsOf] at h
    cases older with
    | nil =>
      obtain ⟨hm, _⟩ := List.cons.inj h
      exact ⟨[], rest, by rw [← hm]; rfl, rfl, by rw [← hm]; rfl⟩
    | cons first older =>
      obtain ⟨hfirst, hrest⟩ := List.cons.inj h
      obtain ⟨s, t, hs, holder, hm⟩ := ih hrest
      refine ⟨a :: s, t, by rw [hs]; rfl, ?_, ?_⟩
      · rw [momentsOf, ← hfirst, holder]
      · rw [hm, run_cons c a s]

theorem mem_momentsOf {s : List Action} {m : Moment leds rows cols} (h : m ∈ c.momentsOf s) :
    m.action ∈ s := by
  obtain ⟨older, newer, split⟩ := List.append_of_mem h
  obtain ⟨before, after, rfl, _, _⟩ := momentsOf_eq_append_cons split
  exact List.mem_append_right before List.mem_cons_self

theorem history_cons (c : Controller leds rows cols) (a : Action) (rest : List Action) :
    c.history (a :: rest) = c.momentsOf (c.pieces a) ++ (c.run [a]).1.history rest := by
  rw [history, cut, momentsOf_append, run_pieces, history]

theorem history_append (c : Controller leds rows cols) (s t : List Action) :
    c.history (s ++ t) = c.history s ++ (c.run s).1.history t := by
  induction s generalizing c with
  | nil => rfl
  | cons a s ih =>
    rw [List.cons_append, history_cons, ih, history_cons, run_cons c a s, List.append_assoc]

/-- The moments of a run are its own actions and the steps of its ticks. -/
theorem action_of_history {actions : List Action} {older newer : List (Moment leds rows cols)}
    {m : Moment leds rows cols} (h : c.history actions = older ++ m :: newer) :
    m.action ≠ .tick ∧ (m.action ∈ actions ∨ m.action = .step) := by
  obtain ⟨s, t, hs, _, _⟩ := momentsOf_eq_append_cons h
  exact mem_cut (c := c) (by rw [hs]; simp)

/-! ## Invariants of runs -/

/-- `P past now` is kept by every moment that a run may add. -/
def Keeps (actions : List Action)
    (P : List (Moment leds rows cols) → Controller leds rows cols → Prop) : Prop :=
  ∀ past now a, a ≠ .tick → a ∈ actions ∨ a = .step → P past now →
    P (past ++ [⟨now, a⟩]) (now.run [a]).1

variable {P : List (Moment leds rows cols) → Controller leds rows cols → Prop}
  {actions : List Action}

theorem momentsOf_keeps {s : List Action}
    (keeps : ∀ past now, ∀ a ∈ s, P past now → P (past ++ [⟨now, a⟩]) (now.run [a]).1)
    (start : P [] c) : P (c.momentsOf s) (c.run s).1 := by
  induction s using List.reverseRecOn with
  | nil => exact start
  | append_singleton s a ih =>
    have before := ih fun past now b hb => keeps past now b (List.mem_append_left _ hb)
    have next := keeps _ _ a (by simp) before
    rw [momentsOf_append, run_append]
    exact next

/-- What holds at the start and is kept holds after every run. -/
theorem Keeps.run (keeps : Keeps actions P) (start : P [] c) :
    P (c.history actions) (c.run actions).1 := by
  rw [← run_cut c actions]
  refine momentsOf_keeps (fun past now a ha => ?_) start
  obtain ⟨hb, hm⟩ := mem_cut ha
  exact keeps past now a hb hm

/-- What holds at the start and is kept holds at every moment of a run. -/
theorem Keeps.moment (keeps : Keeps actions P) (start : P [] c)
    {older newer : List (Moment leds rows cols)} {m : Moment leds rows cols}
    (h : c.history actions = older ++ m :: newer) : P older m.before := by
  obtain ⟨s, t, hs, holder, hm⟩ := momentsOf_eq_append_cons h
  rw [holder, hm]
  refine momentsOf_keeps (fun past now a ha => ?_) start
  obtain ⟨hb, hm⟩ := mem_cut (hs ▸ List.mem_append_left _ ha)
  exact keeps past now a hb hm

/-! ## Where runs begin -/

theorem eq_fresh_of_start {timebase : Timebase} {config : Config} {layout : Layout leds}
    {banks : Banks rows cols} {t : Trace}
    (h : start timebase config layout banks = .ok (c, t)) :
    ∃ (hr : 1 ≤ rows ∧ rows ≤ 256) (period : Period), config.period? timebase = some period ∧
      c = fresh config layout banks hr ∧ t = startTrace rows cols config period := by
  unfold start at h
  cases checked : Setup.check rows cols config layout with
  | error _ =>
    rw [checked] at h
    cases h
  | ok setup =>
    obtain ⟨fit, rfl⟩ := Setup.check_eq_ok_iff.mp checked
    rw [checked] at h
    cases h
    exact ⟨fit.grid, _, timebase.ofRate?_of_ne_zero fit.rate, rfl, rfl⟩

/-- A start sets the timer up, brings the chips up and lets the timer run. -/
theorem carryAll_startTrace (wiring : Wiring) (config : Config) (period : Period) :
    wiring.carryAll (startTrace rows cols config period) =
      wiring.carryAll [.timerPeriod period] ++
        (wiring.carryAll ((bringUp rows cols config).flatMap Instruction.signals) ++
          wiring.carryAll [.timerOn]) := by
  rw [← Wiring.carryAll_append, ← Wiring.carryAll_append]
  rfl

/-- Two rows of one column, and one LED on the first. -/
def twoRows : Controller 1 2 1 := fresh {} #v[⟨0, 0⟩] .dark ⟨by decide, by decide⟩

theorem start_twoRows :
    start .microseconds {} #v[⟨0, 0⟩] (.dark : Banks 2 1) =
      .ok (twoRows, startTrace 2 1 {} ⟨556⟩) := by
  rfl

end Controller

namespace Panel

variable {leds rows cols : Nat} {timebase : Timebase}

theorem serve_acts (wiring : Wiring) (c : Controller leds rows cols)
    (actions : List Action) :
    (⟨wiring, .running c⟩ : Panel leds rows cols).serve timebase (actions.map .act) =
      (⟨wiring, .running (c.run actions).1⟩, wiring.carryAll (c.run actions).2) := by
  induction actions generalizing c with
  | nil => rfl
  | cons a rest ih =>
    cases ha : c.act a with
    | error _ => simp [serve, handle, Panel.act, Controller.run, ha, Except.map, ih]
    | ok r => simp [serve, handle, Panel.act, Controller.run, ha, Except.map, ih]

/-- A panel that is stopped starts as a controller does. -/
theorem start_stopped (wiring : Wiring) (storage : Banks rows cols) (config : Config)
    (layout : Layout leds) :
    (⟨wiring, .stopped storage⟩ : Panel leds rows cols).start timebase config layout =
      (Controller.start timebase config layout storage).map fun (c, t) =>
        (⟨wiring, .running c⟩, wiring.carryAll t) := by
  rw [Panel.start, Controller.start]
  cases Setup.check rows cols config layout <;> rfl

/-- A panel stays on its board. -/
theorem wiring_of_handle {panel next : Panel leds rows cols} {r : Request leds} {trace : Trace}
    (h : panel.handle timebase r = .ok (next, trace)) : next.wiring = panel.wiring := by
  obtain ⟨wiring, operation⟩ := panel
  cases r with
  | start config layout =>
    rw [handle, Panel.start] at h
    split at h
    · cases h
    · cases operation <;> cases h
      rfl
  | act action =>
    cases operation with
    | stopped _ => cases h
    | running c =>
      cases acted : c.act action <;> simp [handle, Panel.act, acted, Except.map] at h
      exact h.1 ▸ rfl
  | stop => cases operation <;> cases h <;> rfl

/-- A panel that is started and then only acts runs its controller. -/
theorem serve_start {config : Config} {layout : Layout leds} {banks : Banks rows cols}
    {c : Controller leds rows cols} {t : Trace} (wiring : Wiring)
    (h : Controller.start timebase config layout banks = .ok (c, t)) (actions : List Action) :
    (⟨wiring, .stopped banks⟩ : Panel leds rows cols).serve timebase
        (.start config layout :: actions.map .act) =
      (⟨wiring, .running (c.run actions).1⟩,
        wiring.carryAll t ++ wiring.carryAll (c.run actions).2) := by
  simp [serve, handle, start_stopped, h, Except.map, serve_acts]

end Panel

end LedMatrix

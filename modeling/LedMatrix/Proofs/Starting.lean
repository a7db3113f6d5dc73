import LedMatrix.Proofs.History

/-! # Which starts are accepted

A start is checked before it touches anything: the number of rows, the refresh
rate, the layout, and last whether the mailbox is in use. Nothing but a start
that is accepted takes a mailbox into use, and nothing gives it back. So of all
starts with one mailbox the first that passes the other checks is accepted, and
no other is. -/

namespace LedMatrix

variable {leds rows cols : Nat}

/-- The fault of the first check that fails, in the order in which they are made. -/
inductive Refused (rows cols : Nat) (config : Config) (layout : Layout leds) (inUse : Prop) :
    Fault → Prop where
  | rows (grid : ¬(1 ≤ rows ∧ rows ≤ 256)) :
      Refused rows cols config layout inUse (.invalidRowCount rows)
  | rate (grid : 1 ≤ rows ∧ rows ≤ 256) (zero : config.refreshRate = 0) :
      Refused rows cols config layout inUse (.invalidRefreshRate config.refreshRate)
  | position (grid : 1 ≤ rows ∧ rows ≤ 256) (rate : config.refreshRate ≠ 0) (led : Fin leds)
      (outside : ¬(layout.get led).Within rows cols)
      (first : ∀ k, k < led → (layout.get k).Within rows cols) :
      Refused rows cols config layout inUse (.positionOutOfRange led (layout.get led))
  | inUse (fit : Fit rows cols config layout) (used : inUse) :
      Refused rows cols config layout inUse .alreadyStarted

/-- A controller that nobody has asked anything. -/
structure Controller.Untouched (layout : Layout leds) (curve : Curve)
    (c : Controller leds rows cols) : Prop where
  row : c.row.val = 0
  phase : c.phase = .idle
  settled : c.isPending = false
  queue : c.mailbox.queue = .empty
  frame : c.frame = .dark
  active : c.active = .dark
  layout : c.layout = layout
  curve : c.canvas.curve = curve

/-- What a start sends, in order. -/
def startSignals (rows cols : Nat) (config : Config) (period : Period) : Trace :=
  [.timerPeriod period] ++ ((List.range rows).map fun n => .drive (.row (.ofNat n)) .low) ++
    [.drive .outputEnable .low] ++
    (Instruction.configure (Register.ofGain config.gain) : Instruction cols).signals ++ [.timerOn]

section Checks

variable {config : Config} {layout : Layout leds} {inUse : Prop} {fault other : Fault}

theorem Refused.not_fit (h : Refused rows cols config layout inUse fault)
    (unused : ¬inUse) : ¬Fit rows cols config layout := by
  intro fit
  cases h with
  | rows grid => exact grid fit.grid
  | rate _ zero => exact fit.rate zero
  | position _ _ led outside _ => exact outside (fit.inside led)
  | inUse _ used => exact unused used

/-- Only one check is the first to fail. -/
theorem Refused.unique (h : Refused rows cols config layout inUse fault)
    (h' : Refused rows cols config layout inUse other) : fault = other := by
  cases h with
  | rows grid =>
    cases h' with
    | rows _ => rfl
    | rate grid' _ | position grid' _ _ _ _ => exact absurd grid' grid
    | inUse fit _ => exact absurd fit.grid grid
  | rate grid zero =>
    cases h' with
    | rows outside => exact absurd grid outside
    | rate _ _ => rfl
    | position _ rate _ _ _ => exact absurd zero rate
    | inUse fit _ => exact absurd zero fit.rate
  | position grid rate led outside first =>
    cases h' with
    | rows outside => exact absurd grid outside
    | rate _ zero => exact absurd zero rate
    | inUse fit _ => exact absurd (fit.inside led) outside
    | position _ _ led' outside' first' =>
      rcases Nat.lt_trichotomy led.val led'.val with before | same | after
      · exact absurd (first' led before) outside
      · obtain rfl := Fin.ext same
        rfl
      · exact absurd (first led' after) outside'
  | inUse fit _ =>
    cases h' with
    | rows grid => exact absurd fit.grid grid
    | rate _ zero => exact absurd zero fit.rate
    | position _ _ led outside _ => exact absurd (fit.inside led) outside
    | inUse _ _ => rfl

end Checks

namespace Controller

variable {config : Config} {layout : Layout leds}

theorem startTrace_eq_startSignals (h : rows ≤ 256) (config : Config) (period : Period) :
    startTrace rows cols config period = startSignals rows cols config period := by
  have all : min rows 256 = rows := Nat.min_eq_left h
  simp [startTrace, startSignals, bringUp, Instruction.setGain, Instruction.signals, all,
    Level.ofBool]

theorem untouched_fresh (config : Config) (layout : Layout leds) (banks : Banks rows cols)
    (h : 1 ≤ rows ∧ rows ≤ 256) : (fresh config layout banks h).Untouched layout config.curve := by
  have dark : (fresh config layout banks h).active = .dark := by
    rw [active, fresh, Banks.clear_eq_dark, Banks.dark]
  exact ⟨rfl, rfl, rfl, rfl, rfl, dark, rfl, rfl⟩

end Controller

/-- Settings are refused for the first check that they fail. -/
theorem Setup.refused_of_check {config : Config} {layout : Layout leds} {inUse : Prop}
    {fault : Fault} (h : check rows cols config layout = .error fault) :
    Refused rows cols config layout inUse fault := by
  unfold check at h
  split at h
  · rename_i grid
    split at h
    · rename_i zero
      cases h
      exact .rate grid zero
    · rename_i rate
      split at h
      · cases h
      · rename_i refused
        cases h
        cases found : layout.firstOutside? rows cols with
        | none =>
          rw [Layout.check, found] at refused
          cases refused
        | some led =>
          rw [Layout.check, found] at refused
          cases refused
          obtain ⟨outside, first⟩ := Layout.firstOutside?_eq_some_iff.mp found
          exact .position grid rate led outside first
  · rename_i grid
    cases h
    exact .rows grid

namespace Panel

variable {timebase : Timebase} {config : Config} {layout : Layout leds}
  {panel : Panel leds rows cols}

/-- The mailbox that a panel has in use. -/
def mailbox? (panel : Panel leds rows cols) : Option (Mailbox rows cols) :=
  panel.controller?.map (·.mailbox)

/-- How an accepted start leaves a panel, and what it puts on the board. -/
structure Started (timebase : Timebase) (wiring : Wiring) (config : Config) (layout : Layout leds)
    (next : Panel leds rows cols) (trace : Trace) : Prop where
  sent : ∃ period, config.period? timebase = some period ∧
    trace = wiring.carryAll (startSignals rows cols config period)
  running : ∃ c, next = ⟨wiring, .running c⟩ ∧ c.Untouched layout config.curve

/-- Settings that fit start a panel that is stopped. -/
theorem started_begin (fit : Fit rows cols config layout) (wiring : Wiring)
    (storage : Banks rows cols) :
    let begun := (⟨config, layout, fit⟩ : Setup leds rows cols).begin timebase storage
    Started timebase wiring config layout ⟨wiring, .running begun.1⟩
      (wiring.carryAll begun.2) where
  sent := by
    refine ⟨_, timebase.ofRate?_of_ne_zero fit.rate, ?_⟩
    rw [← Controller.startTrace_eq_startSignals fit.grid.2]
    rfl
  running := ⟨_, rfl, Controller.untouched_fresh config layout storage fit.grid⟩

/-- A start is accepted if it fits and the mailbox is free; otherwise it is refused by
the first check that fails. -/
theorem start_cases (timebase : Timebase) (panel : Panel leds rows cols) (config : Config)
    (layout : Layout leds) :
    (Fit rows cols config layout ∧ panel.mailbox? = none ∧
        ∃ next trace, panel.start timebase config layout = .ok (next, trace) ∧
          Started timebase panel.wiring config layout next trace) ∨
      ∃ fault, panel.start timebase config layout = .error fault ∧
        Refused rows cols config layout (panel.mailbox? ≠ none) fault := by
  obtain ⟨wiring, operation⟩ := panel
  cases checked : Setup.check rows cols config layout with
  | error fault =>
    refine .inr ⟨fault, ?_, Setup.refused_of_check checked⟩
    rw [start, checked]
  | ok setup =>
    obtain ⟨fit, rfl⟩ := Setup.check_eq_ok_iff.mp checked
    cases operation with
    | stopped storage =>
      refine .inl ⟨fit, rfl, _, _, ?_, started_begin fit wiring storage⟩
      rw [start, checked]
    | running c =>
      refine .inr ⟨.alreadyStarted, ?_, .inUse fit (Option.some_ne_none _)⟩
      rw [start, checked]

theorem start_eq_ok_iff :
    (∃ next trace, panel.start timebase config layout = .ok (next, trace)) ↔
      Fit rows cols config layout ∧ panel.mailbox? = none := by
  rcases panel.start_cases timebase config layout with
    ⟨fit, free, next, trace, accepted, _⟩ | refused
  · exact ⟨fun _ => ⟨fit, free⟩, fun _ => ⟨next, trace, accepted⟩⟩
  · obtain ⟨fault, error, first⟩ := refused
    rw [error]
    constructor
    · rintro ⟨_, _, accepted⟩
      cases accepted
    · rintro ⟨fit, free⟩
      exact absurd fit (first.not_fit (not_not_intro free))

theorem start_eq_error_iff {fault : Fault} :
    panel.start timebase config layout = .error fault ↔
      Refused rows cols config layout (panel.mailbox? ≠ none) fault := by
  rcases panel.start_cases timebase config layout with
    ⟨fit, free, next, trace, accepted, _⟩ | refused
  · rw [accepted]
    constructor
    · intro error
      cases error
    · intro first
      exact absurd fit (first.not_fit (not_not_intro free))
  · obtain ⟨fault', error, first⟩ := refused
    rw [error]
    constructor
    · rintro same
      cases same
      exact first
    · intro first'
      rw [first.unique first']

theorem started_of_ok {next : Panel leds rows cols} {trace : Trace}
    (h : panel.start timebase config layout = .ok (next, trace)) :
    Started timebase panel.wiring config layout next trace := by
  rcases panel.start_cases timebase config layout with
    ⟨_, _, _, _, accepted, started⟩ | ⟨_, error, _⟩
  · rw [h] at accepted
    cases accepted
    exact started
  · rw [h] at error
    cases error

theorem mailbox?_act {next : Panel leds rows cols} {action : Action} {trace : Trace}
    (h : panel.act action = .ok (next, trace)) :
    (next.mailbox? = none ↔ panel.mailbox? = none) := by
  obtain ⟨wiring, operation⟩ := panel
  cases operation with
  | stopped _ => cases h
  | running c =>
    simp only [act, Except.map] at h
    split at h
    · cases h
    · cases h
      exact iff_of_false (Option.some_ne_none _) (Option.some_ne_none _)

end Panel

/-! ## Sharing one mailbox -/

/-- A request, and the panel that it is made to. -/
structure Use (rows cols : Nat) where
  leds : Nat
  panel : Panel leds rows cols
  request : Request leds

namespace Use

variable (timebase : Timebase) {u : Use rows cols}

/-- The panel as the request leaves it. -/
def left (u : Use rows cols) : Panel u.leds rows cols :=
  match u.panel.handle timebase u.request with
  | .ok (next, _) => next
  | .error _ => u.panel

/-- A start that is accepted. -/
def Starts (u : Use rows cols) : Prop :=
  ∃ config layout next trace, u.request = .start config layout ∧
    u.panel.start timebase config layout = .ok (next, trace)

/-- A start whose settings fit. -/
def Fits (u : Use rows cols) : Prop :=
  ∃ config layout, u.request = .start config layout ∧ Fit rows cols config layout

theorem starts_iff : u.Starts timebase ↔ u.Fits ∧ u.panel.mailbox? = none := by
  constructor
  · rintro ⟨config, layout, next, trace, asked, accepted⟩
    obtain ⟨fit, free⟩ := Panel.start_eq_ok_iff.mp ⟨next, trace, accepted⟩
    exact ⟨⟨config, layout, asked, fit⟩, free⟩
  · rintro ⟨⟨config, layout, asked, fit⟩, free⟩
    obtain ⟨next, trace, accepted⟩ := Panel.start_eq_ok_iff.mpr ⟨fit, free⟩
    exact ⟨config, layout, next, trace, asked, accepted⟩

/-- A mailbox is in use once a start was accepted, and stays in use. -/
theorem mailbox?_left (keeps : u.request ≠ .stop) :
    (u.left timebase).mailbox? ≠ none ↔ u.panel.mailbox? ≠ none ∨ u.Starts timebase := by
  obtain ⟨leds, panel, request⟩ := u
  cases request with
  | stop => exact absurd rfl keeps
  | start config layout =>
    rcases panel.start_cases timebase config layout with
      ⟨_, _, _, _, accepted, started⟩ | ⟨_, error, _⟩
    · obtain ⟨c, running, _⟩ := started.running
      have now : left timebase ⟨leds, panel, .start config layout⟩ =
          ⟨panel.wiring, .running c⟩ := by
        simp only [left, Panel.handle, accepted, running]
      rw [now]
      exact ⟨fun _ => .inr ⟨_, _, _, _, rfl, accepted⟩, fun _ => Option.some_ne_none _⟩
    · have same : left timebase ⟨leds, panel, .start config layout⟩ = panel := by
        simp only [left, Panel.handle, error]
      have refused : ¬Starts timebase ⟨leds, panel, .start config layout⟩ := by
        rintro ⟨_, _, _, _, asked, accepted⟩
        cases asked
        rw [error] at accepted
        cases accepted
      rw [same, or_iff_left refused]
  | act action =>
    have other : ¬Starts timebase ⟨leds, panel, .act action⟩ := by
      rintro ⟨_, _, _, _, asked, _⟩
      cases asked
    rw [or_iff_left other]
    cases acted : panel.act action with
    | error _ =>
      have same : left timebase ⟨leds, panel, .act action⟩ = panel := by
        simp only [left, Panel.handle, acted]
      rw [same]
    | ok result =>
      have now : left timebase ⟨leds, panel, .act action⟩ = result.1 := by
        simp only [left, Panel.handle, acted]
      rw [now]
      exact not_congr (Panel.mailbox?_act acted)

end Use

/-- Uses of one mailbox from when nobody uses it, and the mailbox as they leave it. The
panels may differ in their LEDs, their board and their storage; each finds the mailbox as
the use before left it. To stop a panel is to give its mailbox up. -/
inductive Shared (timebase : Timebase) :
    List (Use rows cols) → Option (Mailbox rows cols) → Prop where
  | unused : Shared timebase [] none
  | use (past : List (Use rows cols)) (u : Use rows cols) :
      Shared timebase past u.panel.mailbox? → u.request ≠ .stop →
        Shared timebase (past ++ [u]) (u.left timebase).mailbox?

namespace Shared

variable {timebase : Timebase} {past : List (Use rows cols)}
  {mailbox? : Option (Mailbox rows cols)}

theorem exists_concat (p : Use rows cols → Prop) (past : List (Use rows cols))
    (u : Use rows cols) : (∃ v ∈ past ++ [u], p v) ↔ (∃ v ∈ past, p v) ∨ p u := by
  simp [or_and_right, exists_or]

/-- A mailbox is in use when a start was accepted. -/
theorem inUse_iff_starts (h : Shared timebase past mailbox?) :
    mailbox? ≠ none ↔ ∃ u ∈ past, u.Starts timebase := by
  induction h with
  | unused => simp
  | use past u _ keeps ih => rw [u.mailbox?_left timebase keeps, exists_concat, ih]

/-- The first start that fits takes the mailbox. -/
theorem inUse_iff_fits (h : Shared timebase past mailbox?) :
    mailbox? ≠ none ↔ ∃ u ∈ past, u.Fits := by
  induction h with
  | unused => simp
  | use past u _ keeps ih =>
    rw [u.mailbox?_left timebase keeps, exists_concat, ← ih, Use.starts_iff timebase]
    tauto

end Shared

namespace Panel

/-- The requests to one panel, and the panel that each of them meets. -/
def uses (timebase : Timebase) (panel : Panel leds rows cols) :
    List (Request leds) → List (Use rows cols)
  | [] => []
  | r :: rest => ⟨leds, panel, r⟩ :: uses timebase (Use.left timebase ⟨leds, panel, r⟩) rest

variable {timebase : Timebase}

theorem serve_cons (panel : Panel leds rows cols) (r : Request leds) (rest : List (Request leds)) :
    (panel.serve timebase (r :: rest)).1 =
      ((Use.left timebase ⟨leds, panel, r⟩).serve timebase rest).1 := by
  rw [serve, Use.left]
  cases panel.handle timebase r <;> rfl

/-- Requests to one panel share its mailbox, until it is stopped. -/
theorem shared_uses {panel : Panel leds rows cols} {past : List (Use rows cols)}
    (h : Shared timebase past panel.mailbox?) {requests : List (Request leds)}
    (keeps : ∀ r ∈ requests, r ≠ .stop) :
    Shared timebase (past ++ panel.uses timebase requests)
      (panel.serve timebase requests).1.mailbox? := by
  induction requests generalizing panel past with
  | nil => rwa [uses, List.append_nil]
  | cons r rest ih =>
    have next := Shared.use past ⟨leds, panel, r⟩ h (keeps r List.mem_cons_self)
    rw [serve_cons, uses, List.append_cons]
    exact ih next fun r hr => keeps r (List.mem_cons_of_mem _ hr)

/-! ## What the timebase is asked -/

/-- Starts a panel as `start` does, and notes the rates that the timebase is asked for. When
it has no answer, neither is there an outcome. -/
def startNoting (timebase : Timebase) (panel : Panel leds rows cols) (config : Config)
    (layout : Layout leds) :
    Option (Except Fault (Panel leds rows cols × Trace)) × List UInt32 :=
  if grid : 1 ≤ rows ∧ rows ≤ 256 then
    if config.refreshRate = 0 then (some (.error (.invalidRefreshRate config.refreshRate)), [])
    else
      match layout.check rows cols, panel.operation with
      | .error fault, _ => (some (.error fault), [])
      | .ok (), .running _ => (some (.error .alreadyStarted), [])
      | .ok (), .stopped storage =>
        ((config.period? timebase).map fun period =>
            .ok (⟨panel.wiring, .running (.fresh config layout storage grid)⟩,
              panel.wiring.carryAll (Controller.startTrace rows cols config period)),
          [config.refreshRate])
  else (some (.error (.invalidRowCount rows)), [])

/-- A start that is refused has not asked. -/
theorem startNoting_of_error {panel : Panel leds rows cols} {config : Config}
    {layout : Layout leds} {fault : Fault}
    (h : panel.start timebase config layout = .error fault) :
    panel.startNoting timebase config layout = (some (.error fault), []) := by
  obtain ⟨wiring, operation⟩ := panel
  cases start_eq_error_iff.mp h with
  | rows grid => rw [startNoting, dif_neg grid]
  | rate grid zero => rw [startNoting, dif_pos grid, if_pos zero]
  | position grid rate led outside first =>
    have found := Layout.firstOutside?_eq_some_iff.mpr ⟨outside, first⟩
    rw [startNoting, dif_pos grid, if_neg rate, Layout.check, found]
    rfl
  | inUse fit used =>
    cases operation with
    | stopped _ => exact absurd rfl used
    | running _ =>
      rw [startNoting, dif_pos fit.grid, if_neg fit.rate, Layout.check_eq_ok_iff.mpr fit.inside]

/-- A start that is accepted has asked once, for its own rate, and was answered. -/
theorem startNoting_of_ok {panel next : Panel leds rows cols} {config : Config}
    {layout : Layout leds} {trace : Trace}
    (h : panel.start timebase config layout = .ok (next, trace)) :
    panel.startNoting timebase config layout =
      (some (.ok (next, trace)), [config.refreshRate]) := by
  obtain ⟨fit, free⟩ := start_eq_ok_iff.mp ⟨next, trace, h⟩
  obtain ⟨wiring, operation⟩ := panel
  cases operation with
  | running _ => cases free
  | stopped storage =>
    have answered : config.period? timebase = some _ := timebase.ofRate?_of_ne_zero fit.rate
    rw [start, Setup.check_eq_ok_iff.mpr ⟨fit, rfl⟩] at h
    cases h
    rw [startNoting, dif_pos fit.grid, if_neg fit.rate, Layout.check_eq_ok_iff.mpr fit.inside,
      answered]
    rfl

/-- No rate of zero is ever asked for. -/
theorem ne_zero_of_noted {panel : Panel leds rows cols} {config : Config} {layout : Layout leds}
    {hertz : UInt32} (noted : hertz ∈ (panel.startNoting timebase config layout).2) :
    hertz ≠ 0 := by
  cases h : panel.start timebase config layout with
  | error fault =>
    rw [startNoting_of_error h] at noted
    cases noted
  | ok started =>
    rw [startNoting_of_ok h, List.mem_singleton] at noted
    exact noted ▸ (start_eq_ok_iff.mp ⟨_, _, h⟩).1.rate

/-! ## The first start that fits -/

/-- Of all starts with one mailbox the first that fits is accepted; any other is refused by
the first check that it fails. Only the accepted start asks for a period, and at its own
rate; it sends its signals in order and leaves a controller that is dark and idle. -/
theorem start_accepted_once (panel : Panel leds rows cols) {past : List (Use rows cols)}
    (shared : Shared timebase past panel.mailbox?) (config : Config) (layout : Layout leds) :
    ((∃ next trace, panel.start timebase config layout = .ok (next, trace)) ↔
        Fit rows cols config layout ∧ ¬∃ u ∈ past, u.Starts timebase) ∧
      ((∃ u ∈ past, u.Starts timebase) ↔ ∃ u ∈ past, u.Fits) ∧
      (∀ fault, panel.start timebase config layout = .error fault ↔
        Refused rows cols config layout (∃ u ∈ past, u.Starts timebase) fault) ∧
      (∀ fault, panel.start timebase config layout = .error fault →
        panel.startNoting timebase config layout = (some (.error fault), [])) ∧
      (∀ hertz ∈ (panel.startNoting timebase config layout).2, hertz ≠ 0) ∧
      ∀ next trace, panel.start timebase config layout = .ok (next, trace) →
        config.refreshRate ≠ 0 ∧
          panel.startNoting timebase config layout =
            (some (.ok (next, trace)), [config.refreshRate]) ∧
          Started timebase panel.wiring config layout next trace := by
  have inUse := shared.inUse_iff_starts
  refine ⟨?_, inUse.symm.trans shared.inUse_iff_fits, fun fault => ?_,
    fun fault => startNoting_of_error, fun hertz => ?_, fun next trace h => ?_⟩
  · rw [start_eq_ok_iff, ← inUse, ne_eq, not_not]
  · rw [start_eq_error_iff, inUse]
  · exact ne_zero_of_noted
  · obtain ⟨fit, _⟩ := start_eq_ok_iff.mp ⟨next, trace, h⟩
    exact ⟨fit.rate, startNoting_of_ok h, started_of_ok h⟩

/-- Starts that do not fit leave the mailbox free for one that does; the next finds it in
use, unless it fails an earlier check. -/
theorem start_accepted_once_third :
    let unstarted : Panel 1 2 1 := .unstarted .bus
    let early : List (Request 1) :=
      [.start { refreshRate := 0 } #v[⟨0, 0⟩], .start {} #v[⟨2, 0⟩], .act (.call .flush)]
    let panel := (unstarted.serve .microseconds early).1
    let later := (panel.serve .microseconds [.start {} #v[⟨0, 0⟩], .act .step]).1
    let signals : Trace := [.timerPeriod ⟨556⟩, .drive (.row 0) .low, .drive (.row 1) .low,
      .drive .outputEnable .low] ++ (Instruction.configure 0x8430 : Instruction 1).signals ++
        [.timerOn]
    (∃ next, panel.start .microseconds {} #v[⟨0, 0⟩] = .ok (next, signals) ∧
        panel.startNoting .microseconds {} #v[⟨0, 0⟩] = (some (.ok (next, signals)), [1800]) ∧
        Started .microseconds .bus {} #v[⟨0, 0⟩] next signals) ∧
      later.start .microseconds {} #v[⟨1, 0⟩] = .error .alreadyStarted ∧
      later.startNoting .microseconds {} #v[⟨1, 0⟩] = (some (.error .alreadyStarted), []) ∧
      later.start .microseconds {} #v[⟨2, 0⟩] = .error (.positionOutOfRange 0 ⟨2, 0⟩) := by
  intro unstarted early panel later signals
  have keeps : ∀ r ∈ early, r ≠ .stop := by simp [early]
  have begins : Shared .microseconds [] unstarted.mailbox? := .unused
  have shared : Shared .microseconds (unstarted.uses .microseconds early) panel.mailbox? :=
    shared_uses begins keeps
  have fit (row : UInt8) (h : row.toNat < 2) : Fit 2 1 {} #v[⟨row, 0⟩] := by
    refine ⟨by decide, by decide, fun led => ?_⟩
    obtain rfl : led = 0 := Subsingleton.elim led 0
    exact ⟨h, Nat.one_pos⟩
  have free : panel.mailbox? = none := rfl
  have none : ¬∃ u ∈ unstarted.uses .microseconds early, u.Starts .microseconds := fun used =>
    shared.inUse_iff_starts.mpr used free
  obtain ⟨accepts, _, _, _, _, starts⟩ := start_accepted_once panel shared {} #v[⟨0, 0⟩]
  obtain ⟨next, trace, accepted⟩ := accepts.mpr ⟨fit 0 (by decide), none⟩
  obtain ⟨_, noted, started⟩ := starts next trace accepted
  obtain ⟨period, answered, rfl⟩ := started.sent
  obtain rfl : period = ⟨556⟩ := by
    cases answered
    rfl
  have after : Shared .microseconds
      (unstarted.uses .microseconds early ++
        panel.uses .microseconds [.start {} #v[⟨0, 0⟩], .act .step]) later.mailbox? :=
    shared_uses shared (by simp)
  have used := after.inUse_iff_starts.mp (Option.isSome_iff_ne_none.mp
    (show later.mailbox?.isSome = true by decide))
  obtain ⟨_, _, refused, quiet, _⟩ := start_accepted_once later after {} #v[⟨1, 0⟩]
  obtain ⟨_, _, misplaced, _⟩ := start_accepted_once later after {} #v[⟨2, 0⟩]
  have inUse := (refused _).mpr (.inUse (fit 1 (by decide)) used)
  refine ⟨⟨next, accepted, noted, started⟩, inUse, quiet _ inUse, ?_⟩
  refine (misplaced _).mpr (.position (by decide) (by decide) 0 (by decide) fun k hk => ?_)
  exact absurd hk (Nat.not_lt_zero _)

end Panel

end LedMatrix

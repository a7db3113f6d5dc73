import LedMatrix.Proofs.Stage

/-! # The lit row shows its own data

Chips that see all that a panel puts on its board show, while a row is lit, what
the tick that lit it sent, and nothing that was sent or flushed since. -/

namespace LedMatrix

variable {leds rows cols : Nat}

/-- Whether an action drives the lines past the controller. -/
def Action.isDirect : Action → Bool
  | .drive _ _ | .present _ => true
  | .call _ | .step | .tick => false

namespace Controller

variable {wiring : Wiring} {r : Receiver} {sent : Trace} {n : UInt8} {timebase : Timebase}
  {config : Config} {layout : Layout leds} {banks : Banks rows cols}
  {c : Controller leds rows cols} {t : Trace} {actions : List Action}

/-! ## The start -/

/-- A start raises no row line. -/
theorem not_raised_of_start {period : Period} (n : UInt8) :
    .drive (.row n) .high ∉ startTrace rows cols config period := by
  intro raised
  simp only [startTrace, List.mem_cons, List.mem_append, List.mem_flatMap, List.not_mem_nil,
    reduceCtorEq, false_or, or_false] at raised
  obtain ⟨i, hi, hs⟩ := raised
  refine Instruction.not_raised (fun row he => ?_) hs
  subst he
  simp [bringUp, Instruction.setGain] at hi

/-- No row is lit while a controller starts. -/
theorem dark_of_start {period : Period} (registers : Primary → UInt16)
    (hsent : sent <+: wiring.carryAll (startTrace rows cols config period)) (n : UInt8) :
    ((Receiver.switchedOn registers).feedAll sent).levels (.row n) = .low := by
  rw [Receiver.levels_feedAll]
  exact Levels.row_low_of_after (Wiring.not_raised (not_raised_of_start n) hsent) rfl

theorem feedAll_start (wiring : Wiring) (period : Period) (hq : r.Quiet) :
    (r.feedAll (wiring.carryAll (startTrace rows cols config period))).Quiet ∧
      (r.feedAll (wiring.carryAll (startTrace rows cols config period))).columns = r.columns := by
  obtain ⟨quiet, readings⟩ := Receiver.feedAll_sent wiring (bringUp rows cols config) hq
  have columns := Receiver.columns_of_readings readings
  rw [carryAll_startTrace, Receiver.feedAll_append, Receiver.feedAll_append,
    Receiver.feedAll_carry_timer wiring rfl, Receiver.feedAll_carry_timer wiring rfl]
  refine ⟨quiet, columns.trans (Columns.foldl_of_control ?_)⟩
  simp [bringUp, Instruction.readings, Instruction.setGain]

/-- What a receiver of the events makes of them. -/
def watch (registers : Primary → UInt16) (events : List (Event leds rows cols)) : Receiver :=
  (Receiver.switchedOn registers).feedAll (events.map Event.signal)

theorem watch_append (registers : Primary → UInt16) (past news : List (Event leds rows cols)) :
    watch registers (past ++ news) = (watch registers past).feedAll (news.map Event.signal) := by
  rw [watch, List.map_append, Receiver.feedAll_append, watch]

theorem steady_start (h : start timebase config layout banks = .ok (c, t)) (wiring : Wiring)
    (registers : Primary → UInt16) :
    Steady wiring (eventsOf wiring t []) c
      (watch registers (eventsOf wiring t [] : List (Event leds rows cols))) := by
  obtain ⟨_, period, _, rfl, rfl⟩ := eq_fresh_of_start h
  have signals : (eventsOf wiring (startTrace rows cols config period)
      ([] : List (Moment leds rows cols))).map Event.signal =
        wiring.carryAll (startTrace rows cols config period) := by
    rw [eventsOf, List.flatMap_nil, List.append_nil, signals_caused]
  have quietStart : (Receiver.switchedOn registers).Quiet := ⟨rfl, rfl⟩
  obtain ⟨quiet, columns⟩ :
      ((Receiver.switchedOn registers).feedAll
        (wiring.carryAll (startTrace rows cols config period))).Quiet ∧ _ :=
    feedAll_start wiring period quietStart
  have dark (n : UInt8) : ((Receiver.switchedOn registers).feedAll
      (wiring.carryAll (startTrace rows cols config period))).levels (.row n) = .low :=
    dark_of_start registers (List.prefix_refl _) n
  rw [watch, signals]
  refine ⟨quiet, fun n hn => ?_, .lit (.inl rfl) (by rw [columns]; rfl) fun n hn => ?_⟩
  · rw [dark n] at hn
    cases hn
  · rw [dark n] at hn
    cases hn

/-! ## Runs -/

/-- While nothing drives the lines past the controller, a run is made of steps and
calls: what each of them keeps, every moment keeps. -/
theorem keeps_of_step_call {P : List (Moment leds rows cols) → Controller leds rows cols → Prop}
    (hdirect : ∀ a ∈ actions, a.isDirect = false)
    (step : ∀ past now, P past now → P (past ++ [.ofStep now]) now.step.1)
    (call : ∀ past now call, P past now →
      P (past ++ [⟨now, .call call⟩]) (now.run [.call call]).1) : Keeps actions P := by
  intro past now a ht ha h
  cases a with
  | tick => exact absurd rfl ht
  | step =>
    rw [run_step]
    exact step past now h
  | call asked => exact call past now asked h
  | drive line level => exact absurd (hdirect _ (ha.resolve_right nofun)) nofun
  | present word => exact absurd (hdirect _ (ha.resolve_right nofun)) nofun

theorem keeps_steady (wiring : Wiring) (t : Trace) (registers : Primary → UInt16)
    (hdirect : ∀ a ∈ actions, a.isDirect = false) :
    Keeps actions fun past (now : Controller leds rows cols) =>
      Steady wiring (eventsOf wiring t past) now (watch registers (eventsOf wiring t past)) := by
  refine keeps_of_step_call hdirect ?_ ?_
  · intro past now h
    rw [eventsOf_append, watch_append, signals_events]
    exact steady_step h
  · intro past now call h
    have silent : (⟨now, .call call⟩ : Moment leds rows cols).trace = [] := trace_of_isCall rfl
    rw [eventsOf_append, watch_append, signals_events, Moment.events, silent, Wiring.carryAll_nil,
      List.map_nil, List.append_nil, Receiver.feedAll_nil]
    exact steady_call h call

/-- While nothing drives the lines past the controller, it steps or is called. -/
theorem isCall_of_history (hdirect : ∀ a ∈ actions, a.isDirect = false)
    {older newer : List (Moment leds rows cols)} {m : Moment leds rows cols}
    (h : c.history actions = older ++ m :: newer) (hs : m.action ≠ .step) : m.isCall = true := by
  obtain ⟨ht, ha⟩ := action_of_history h
  have ordinary := hdirect _ (ha.resolve_right hs)
  unfold Moment.isCall
  cases hm : m.action <;> simp_all [Action.isDirect]

theorem shows_of_prefix (h : start timebase config layout banks = .ok (c, t)) (wiring : Wiring)
    (hdirect : ∀ a ∈ actions, a.isDirect = false) (registers : Primary → UInt16)
    {events : List (Event leds rows cols)}
    (hevents : events <+: eventsOf wiring t (c.history actions))
    (hn : (watch registers events).levels (.row n) = .high) :
    ShowsRow events (watch registers events).columns.displayed n := by
  have starts := steady_start h wiring registers
  -- the events end within the start, with the last moment, or within some moment
  rcases prefix_of_append hevents with hstart | ⟨rest, hrest, rfl⟩
  · obtain ⟨_, period, _, rfl, rfl⟩ := eq_fresh_of_start h
    have sent := hstart.map Event.signal
    rw [signals_caused] at sent
    have dark := dark_of_start registers sent n
    rw [watch, dark] at hn
    cases hn
  · rcases prefix_flatMap hrest with rfl | ⟨older, m, newer, cut, hsplit, hcut, rfl⟩
    · exact (((keeps_steady wiring t registers hdirect).run starts).of_high hn).2
    · have steady := (keeps_steady wiring t registers hdirect).moment starts hsplit
      have hcall := isCall_of_history hdirect hsplit
      obtain ⟨sent, hsent, rfl⟩ := List.prefix_map_iff.mp hcut
      have split : eventsOf wiring t older ++ sent.map (⟨·, some m⟩) =
          (wiring.carryAll t).map (⟨·, none⟩) ++
            (older.flatMap (Moment.events wiring) ++ sent.map (⟨·, some m⟩)) := by
        rw [eventsOf, List.append_assoc]
      rw [← split, watch_append, signals_caused] at hn ⊢
      exact shows_within steady hcall hsent hn

/-- The chips that the events reach are what a receiver makes of them. -/
theorem chips_watch (registers : Primary → UInt16) (events : List (Event leds rows cols)) :
    (Chips.switchedOn registers).feedAll (events.map Event.signal) =
      (watch registers events).chips := by
  have full : 16 ≤ (Receiver.switchedOn registers).samples.length := by
    simp [Receiver.switchedOn]
  rw [watch, Receiver.chips_feedAll full, Receiver.chips_switchedOn]

/-- The lit row shows its own data. After every single event since the start, each row line
that is high is that of a row of the grid, and the chips, whatever they held at first, show
the counts that the row had in the bank it was sent from in the tick that lit it. -/
theorem lit_row_shows_its_data (h : start timebase config layout banks = .ok (c, t))
    (wiring : Wiring) (hdirect : ∀ a ∈ actions, a.isDirect = false) (registers : Primary → UInt16) :
    (eventsOf wiring t (c.history actions)).map Event.signal =
        ((⟨wiring, .stopped banks⟩ : Panel leds rows cols).serve timebase
          (.start config layout :: actions.map .act)).2 ∧
      ∀ events, events <+: eventsOf wiring t (c.history actions) →
        ∀ chips, chips = (Chips.switchedOn registers).feedAll (events.map Event.signal) →
          ∀ n, chips.levels (.row n) = .high →
            ∃ (hn : n.toNat < rows) (bank : Bank rows cols), litBank? n events = some bank ∧
              chips.columns.displayed.length = cols ∧
              ∀ k < cols, ∀ p, chips.columns.displayed[k]?.map (· p) =
                bank[n.toNat].count? (cols - 1 - k) p := by
  refine ⟨?_, ?_⟩
  · rw [signals_eventsOf_history, Panel.serve_start wiring h]
  · rintro events hevents chips rfl n hhigh
    rw [chips_watch] at hhigh ⊢
    obtain ⟨hn, bank, source, displayed⟩ := shows_of_prefix h wiring hdirect registers hevents hhigh
    have shown : (watch registers events).chips.columns.displayed = bank[n.toNat].sent := displayed
    refine ⟨hn, bank, source, ?_, fun k hk p => ?_⟩
    · rw [shown, Row.length_sent]
    · rw [shown, Row.getElem?_sent _ hk]

/-- A painted frame, flushed and lit on its first row. -/
theorem lit_row_shows_its_data_painted :
    let actions : List Action :=
      [.call (.fill ⟨255, 0, 0⟩), .call .flush] ++ List.replicate 5 .step
    let events := eventsOf .direct (startTrace 2 1 {} ⟨556⟩) (twoRows.history actions)
    let chips := (Chips.switchedOn fun _ => 7).feedAll (events.map Event.signal)
    start .microseconds {} #v[⟨0, 0⟩] (.dark : Banks 2 1) =
      .ok (twoRows, startTrace 2 1 {} ⟨556⟩) ∧
      (∀ a ∈ actions, a.isDirect = false) ∧ chips.levels (.row 0) = .high ∧
      ∃ bank : Bank 2 1, litBank? 0 events = some bank ∧
        chips.columns.displayed[0]?.map (· .red) = bank[0].count? 0 .red := by
  intro actions events chips
  have ordinary : ∀ a ∈ actions, a.isDirect = false := by decide
  have high : chips.levels (.row 0) = .high := by decide +kernel
  obtain ⟨_, bank, source, _, counts⟩ :=
    (lit_row_shows_its_data start_twoRows .direct ordinary fun _ => 7).2 events
      (List.prefix_refl _) chips rfl 0 high
  exact ⟨start_twoRows, ordinary, high, bank, source, counts 0 (by decide) .red⟩

end Controller

end LedMatrix

import LedMatrix.Proofs.CommandOrder
import LedMatrix.Proofs.RowLines

/-! # Clock, data and latch

The clock rises only to fall at once: nothing else happens while it is high. What
is clocked into the chips is on all three data lines before the clock rises, and
clock and latch rest low between any two instructions. -/

namespace LedMatrix

/-! ## Pulses -/

/-- Every rise of the clock is followed at once by its fall. -/
def Trace.Pulsed (trace : Trace) : Prop :=
  ∀ s t, trace = s ++ .drive .clock .high :: t → ∃ rest, t = .drive .clock .low :: rest

namespace Trace

variable {s t trace : Trace}

theorem Pulsed.of_not_mem (h : .drive .clock .high ∉ trace) : Pulsed trace := by
  rintro s t rfl
  exact absurd (by simp) h

theorem Pulsed.append (hs : Pulsed s) (ht : Pulsed t) : Pulsed (s ++ t) := by
  intro a b split
  rcases List.append_eq_append_iff.mp split with ⟨later, rfl, hlater⟩ | ⟨rest, rfl, hrest⟩
  · exact ht later b hlater
  · cases rest with
    | nil => exact ht [] b hrest.symm
    | cons first rest =>
      obtain ⟨rfl, rfl⟩ := List.cons.inj hrest
      obtain ⟨more, rfl⟩ := hs a rest rfl
      exact ⟨more ++ t, rfl⟩

theorem Pulsed.flatMap {α : Type} {f : α → Trace} {l : List α} (h : ∀ a ∈ l, Pulsed (f a)) :
    Pulsed (l.flatMap f) := by
  induction l with
  | nil => exact .of_not_mem List.not_mem_nil
  | cons a l ih =>
    rw [List.flatMap_cons]
    exact (h a List.mem_cons_self).append (ih fun b hb => h b (List.mem_cons_of_mem _ hb))

theorem pulsed_pulse : Pulsed Burst.pulse := by
  intro s t split
  cases s with
  | nil =>
    obtain ⟨-, rfl⟩ := List.cons.inj split
    exact ⟨[], rfl⟩
  | cons first s =>
    obtain ⟨-, later⟩ := List.cons.inj split
    have raised : Signal.drive .clock .high ∈ [Signal.drive .clock .low] := by
      rw [later]
      simp
    cases List.mem_singleton.mp raised

/-- While the clock is high nothing happens but its fall. -/
theorem Pulsed.eq_fall {levels : Levels} {x : Signal} (h : Pulsed trace)
    (low : levels .clock = .low) (hs : s ++ [x] <+: trace) (high : levels.after s .clock = .high) :
    x = .drive .clock .low := by
  induction s using List.reverseRecOn generalizing x with
  | nil =>
    have same : levels.after [] .clock = levels .clock := rfl
    rw [same, low] at high
    cases high
  | append_singleton s last ih =>
    have before : s ++ [last] <+: trace := (List.prefix_append _ _).trans hs
    have now : (levels.after s).apply last .clock = .high := by
      rwa [Levels.after_append] at high
    cases was : levels.after s .clock with
    | low =>
      have rise : Levels.rises .clock (levels.after s) ((levels.after s).apply last) = true := by
        simp [Levels.rises, was, now]
      obtain rfl := eq_of_clock_rises rise
      obtain ⟨t, rfl⟩ := hs
      obtain ⟨rest, fall⟩ := h s (x :: t) (by simp)
      exact (List.cons.inj fall).1
    | high =>
      -- then the last signal was the fall, and the clock is low by now
      rw [ih before was] at now
      simp [Levels.apply] at now

end Trace

/-! ## What leads up to a pulse -/

/-- The signals since the clock line was last driven. -/
def Trace.lead (past : Trace) : Trace := past.rtakeWhile fun s => !s.touches .clock

/-- For each rise of the clock, in order, what led up to it. -/
def Trace.leads (past : Trace) : Trace → List Trace
  | [] => []
  | s :: rest => (if s = .drive .clock .high then [lead past] else []) ++ leads (past ++ [s]) rest

/-- A trace in which some signal drives each of the data lines. -/
def Trace.PresentsData (trace : Trace) : Prop := ∀ p, ∃ s ∈ trace, s.touches (.data p) = true

namespace Trace

variable {s t past trace : Trace}

theorem leads_append (past s t : Trace) :
    leads past (s ++ t) = leads past s ++ leads (past ++ s) t := by
  induction s generalizing past with
  | nil => simp [leads]
  | cons first s ih =>
    rw [List.cons_append, leads, leads, ih, List.append_assoc, List.append_assoc,
      List.singleton_append]

theorem leads_of_untouched (h : ∀ x ∈ s, x.touches .clock = false) : leads past s = [] := by
  induction s generalizing past with
  | nil => rfl
  | cons first s ih =>
    have other : first ≠ .drive .clock .high := by
      rintro rfl
      cases h _ List.mem_cons_self
    rw [leads, if_neg other, ih fun x hx => h x (List.mem_cons_of_mem _ hx), List.append_nil]

/-- What was sent since the clock line was last driven is in the lead. -/
theorem mem_lead {x : Signal} (h : ∀ x ∈ s, x.touches .clock = false) (hx : x ∈ s) :
    x ∈ lead (past ++ s) := by
  have all : ∀ y ∈ s.reverse, (!y.touches .clock) = true := by
    intro y hy
    rw [h y (List.mem_reverse.mp hy), Bool.not_false]
  rw [lead, List.rtakeWhile, List.reverse_append, List.takeWhile_append_of_pos all]
  simp [hx]

end Trace

/-! ### Bursts on the board -/

namespace Wiring

variable (wiring : Wiring)

theorem carryAll_flatMap {α : Type} (f : α → Trace) (l : List α) :
    wiring.carryAll (l.flatMap f) = l.flatMap fun a => wiring.carryAll (f a) :=
  List.flatMap_assoc

/-- A word on the board drives all three data lines, and no other. -/
theorem presentsData_carry (word : Word) : (wiring.carry (.present word)).PresentsData := by
  intro p
  cases wiring with
  | bus => exact ⟨_, List.mem_singleton_self _, rfl⟩
  | direct | pins _ =>
    refine ⟨_, List.mem_map_of_mem p.mem_all, ?_⟩
    simp [Signal.touches]

theorem untouched_carry (word : Word) :
    ∀ s ∈ wiring.carry (.present word), s.touches .clock = false ∧ s ≠ .drive .latch .low := by
  cases wiring <;> simp [carry, Word.spread, Signal.touches]

end Wiring

namespace Burst

variable (wiring : Wiring) (burst : Burst)

/-- What a burst sends before the pulse of a clock. -/
def front (i : Fin 16) : Trace :=
  (burst.data.elim [] fun planes => [.present (planes.get i)]) ++
    (if i.val + burst.latched = 16 then [.drive .latch .high] else [])

theorem cycle_eq (i : Fin 16) : burst.cycle i = burst.front i ++ pulse := rfl

theorem untouched_front (i : Fin 16) :
    ∀ s ∈ wiring.carryAll (burst.front i), s.touches .clock = false ∧ s ≠ .drive .latch .low := by
  intro s hs
  rw [front, Wiring.carryAll_append] at hs
  rcases List.mem_append.mp hs with hs | hs
  · cases hd : burst.data with
    | none =>
      rw [hd] at hs
      cases hs
    | some planes =>
      rw [hd, Option.elim_some, Wiring.carryAll, List.flatMap_singleton] at hs
      exact wiring.untouched_carry _ s hs
  · split at hs
    · rw [Wiring.carryAll_latch] at hs
      rw [List.mem_singleton.mp hs]
      exact ⟨rfl, by simp⟩
    · cases hs

theorem presentsData_front {burst : Burst} (hdata : burst.data.isSome = true) (i : Fin 16) :
    (wiring.carryAll (burst.front i)).PresentsData := by
  obtain ⟨planes, hd⟩ := Option.isSome_iff_exists.mp hdata
  intro p
  obtain ⟨s, hs, touches⟩ := wiring.presentsData_carry (planes.get i) p
  refine ⟨s, ?_, touches⟩
  rw [front, hd, Option.elim_some, Wiring.carryAll_append, Wiring.carryAll, List.flatMap_singleton]
  exact List.mem_append_left _ hs

theorem leads_cycle (past : Trace) (i : Fin 16) :
    Trace.leads past (wiring.carryAll (burst.cycle i)) =
      [Trace.lead (past ++ wiring.carryAll (burst.front i))] := by
  have front : Trace.leads past (wiring.carryAll (burst.front i)) = [] :=
    Trace.leads_of_untouched fun s hs => (burst.untouched_front wiring i s hs).1
  rw [cycle_eq, Wiring.carryAll_append, Wiring.carryAll_pulse, Trace.leads_append, front]
  simp [pulse, Trace.leads]

/-- A burst of data has all three data lines driven before each of its clocks. -/
theorem leads_cycles (past : Trace) (clocks : List (Fin 16)) :
    (Trace.leads past (wiring.carryAll (clocks.flatMap burst.cycle))).length = clocks.length ∧
      (burst.data.isSome = true →
        ∀ lead ∈ Trace.leads past (wiring.carryAll (clocks.flatMap burst.cycle)),
          lead.PresentsData) := by
  induction clocks generalizing past with
  | nil => exact ⟨rfl, fun _ => nofun⟩
  | cons i clocks ih =>
    obtain ⟨count, presents⟩ := ih (past ++ wiring.carryAll (burst.cycle i))
    rw [List.flatMap_cons, Wiring.carryAll_append, Trace.leads_append, leads_cycle]
    refine ⟨?_, fun hdata lead hlead => ?_⟩
    · simp [count, Nat.add_comm]
    · rcases List.mem_cons.mp hlead with rfl | hlead
      · intro p
        obtain ⟨s, hs, touches⟩ := presentsData_front wiring hdata i p
        exact ⟨s, Trace.mem_lead (fun s hs => (burst.untouched_front wiring i s hs).1) hs, touches⟩
      · exact presents hdata lead hlead

/-- Whatever was sent before, all three data lines are driven before each clock of a
burst that sends data. -/
theorem leads_signals {burst : Burst} (hdata : burst.data.isSome = true) (past : Trace) :
    (Trace.leads past (wiring.carryAll burst.signals)).length = 16 ∧
      ∀ lead ∈ Trace.leads past (wiring.carryAll burst.signals), lead.PresentsData := by
  obtain ⟨count, presents⟩ := burst.leads_cycles wiring past (List.finRange 16)
  have last : Trace.leads (past ++ wiring.carryAll ((List.finRange 16).flatMap burst.cycle))
      [.drive .latch .low] = [] := Trace.leads_of_untouched (by simp [Signal.touches])
  rw [signals, Wiring.carryAll_append, Wiring.carryAll_latch, Trace.leads_append, last,
    List.append_nil]
  exact ⟨count, presents hdata⟩

theorem fall_not_mem_cycles (clocks : List (Fin 16)) :
    .drive .latch .low ∉ wiring.carryAll (clocks.flatMap burst.cycle) := by
  intro fall
  rw [Wiring.carryAll_flatMap] at fall
  obtain ⟨i, -, hs⟩ := List.mem_flatMap.mp fall
  rw [cycle_eq, Wiring.carryAll_append, Wiring.carryAll_pulse] at hs
  rcases List.mem_append.mp hs with hs | hs
  · exact (burst.untouched_front wiring i _ hs).2 rfl
  · simp [pulse] at hs

end Burst

/-! ## Order on the lines -/

/-- What a board may rely on that was sent the past and is sent a trace. -/
structure Orderly (r : Receiver) (past trace : Trace) : Prop where
  pulsed : trace.Pulsed
  /-- As the latch line falls after one or eleven clocks, which is to say at the end of
  a burst that sends data or a register value, all data lines were driven before each of
  the last sixteen clocks. -/
  presents : ∀ s, s ++ [.drive .latch .low] <+: trace → (r.feedAll s).levels .latch = .high →
    (r.feedAll s).edges = 1 ∨ (r.feedAll s).edges = 11 →
      16 ≤ (Trace.leads past s).length ∧
        ∀ lead ∈ (Trace.leads past s).rtake 16, lead.PresentsData

theorem rtake_append_of_le {α : Type} {n : Nat} (s : List α) {t : List α} (h : n ≤ t.length) :
    (s ++ t).rtake n = t.rtake n := by
  rw [List.rtake, List.rtake, List.length_append, Nat.add_sub_assoc h, List.drop_length_add_append]

namespace Orderly

variable {r : Receiver} {past s t trace : Trace} {cols : Nat}

theorem append (hs : Orderly r past s) (ht : Orderly (r.feedAll s) (past ++ s) t) :
    Orderly r past (s ++ t) := by
  refine ⟨hs.pulsed.append ht.pulsed, fun cut hcut high counted => ?_⟩
  rcases prefix_of_append hcut with early | ⟨rest, hrest, split⟩
  · exact hs.presents cut early high counted
  · rcases List.eq_nil_or_concat rest with rfl | ⟨late, last, rfl⟩
    · rw [List.append_nil] at split
      exact hs.presents cut (split ▸ List.prefix_refl _) high counted
    · rw [List.concat_eq_append, ← List.append_assoc] at split
      obtain ⟨rfl, fall⟩ := List.append_inj' split rfl
      rw [List.concat_eq_append, ← fall] at hrest
      rw [Receiver.feedAll_append] at high counted
      obtain ⟨enough, presents⟩ := ht.presents late hrest high counted
      -- the last sixteen clocks are those of the later part
      have last := rtake_append_of_le (Trace.leads past s) enough
      rw [Trace.leads_append, last, List.length_append]
      exact ⟨enough.trans (Nat.le_add_left ..), presents⟩

theorem of_not_mem (clock : .drive .clock .high ∉ trace) (latch : .drive .latch .low ∉ trace) :
    Orderly r past trace :=
  ⟨.of_not_mem clock, fun _ hs => absurd (hs.subset (by simp)) latch⟩

theorem opening (h : r.Quiet) : Orderly r past Burst.opening := by
  refine ⟨.of_not_mem (by simp [Burst.opening]), fun s hs high => ?_⟩
  have first : s = [] := by
    cases s with
    | nil => rfl
    | cons first s =>
      obtain ⟨-, later⟩ := List.cons_prefix_cons.mp hs
      simpa using later.subset (List.mem_append_right s (List.mem_singleton_self _))
  rw [first, Receiver.feedAll_nil, h.latch] at high
  cases high

theorem burst (wiring : Wiring) {burst : Burst} (h : r.Quiet)
    (hl : 1 ≤ burst.latched ∧ burst.latched ≤ 16)
    (hdata : burst.latched = 1 ∨ burst.latched = 11 → burst.data.isSome = true) :
    Orderly r past (wiring.carryAll burst.signals) := by
  rw [Burst.signals, Wiring.carryAll_append, Wiring.carryAll_latch]
  refine ⟨.append ?_ (.of_not_mem (by simp)), fun s hs _ counted => ?_⟩
  · rw [Wiring.carryAll_flatMap]
    refine .flatMap fun i _ => ?_
    rw [Burst.cycle_eq, Wiring.carryAll_append, Wiring.carryAll_pulse]
    refine .append (.of_not_mem fun high => ?_) Trace.pulsed_pulse
    cases (burst.untouched_front wiring i _ high).1
  · -- the latch line falls at the end of a burst, and nowhere else
    have whole : s = wiring.carryAll ((List.finRange 16).flatMap burst.cycle) := by
      rcases prefix_of_append hs with early | ⟨rest, hrest, split⟩
      · exact absurd (early.subset (by simp)) (burst.fall_not_mem_cycles wiring _)
      · rcases List.prefix_cons_iff.mp hrest with rfl | ⟨more, rfl, hmore⟩
        · rw [List.append_nil] at split
          exact absurd (split ▸ by simp) (burst.fall_not_mem_cycles wiring (List.finRange 16))
        · rw [List.prefix_nil.mp hmore] at split
          exact List.append_cancel_right split
    have all := Receiver.midway_cycles wiring h hl.2 (Nat.le_refl 16)
    rw [List.take_of_length_le (Nat.le_refl 16)] at all
    have edges := all.edges (by omega)
    rw [whole] at counted ⊢
    obtain ⟨count, presents⟩ := burst.leads_cycles wiring past (List.finRange 16)
    have sends : burst.data.isSome = true := hdata (by omega)
    refine ⟨Nat.le_of_eq (count.trans List.length_finRange).symm, fun lead hlead => ?_⟩
    exact presents sends lead (List.mem_of_mem_drop hlead)

theorem columns (wiring : Wiring) (columns : List Planes) (h : r.Quiet) :
    Orderly r past
      (wiring.carryAll (columns.flatMap fun planes => (Burst.column planes).signals)) := by
  induction columns generalizing r past with
  | nil => exact .of_not_mem List.not_mem_nil List.not_mem_nil
  | cons planes columns ih =>
    have counted : 1 ≤ (Burst.column planes).latched ∧ (Burst.column planes).latched ≤ 16 :=
      ⟨Nat.le_refl 1, Nat.le_add_left 1 15⟩
    rw [List.flatMap_cons, Wiring.carryAll_append]
    refine .append (.burst wiring h counted fun _ => rfl) ?_
    exact ih (Receiver.feedAll_burst wiring h counted).1

/-- Driving the output enable line and the row lines leaves clock and latch alone. -/
theorem of_drives (wiring : Wiring) (hdrive : ∀ s ∈ trace, ∃ line level,
    s = .drive line level ∧ line ≠ .clock ∧ line ≠ .latch) :
    Orderly r past (wiring.carryAll trace) := by
  refine .of_not_mem (fun hs => ?_) (fun hs => ?_)
  · obtain ⟨_, _, same, clock, -⟩ := hdrive _ (Wiring.mem_carryAll_drive (by simp) hs).1
    cases same
    exact clock rfl
  · obtain ⟨_, _, same, -, latch⟩ := hdrive _ (Wiring.mem_carryAll_drive (by simp) hs).1
    cases same
    exact latch rfl

/-- What follows an opening meets clock and latch as the opening left them. -/
theorem opened (wiring : Wiring) (h : r.Quiet)
    (ht : Orderly r (past ++ Burst.opening) (wiring.carryAll trace)) :
    Orderly r past (wiring.carryAll (Burst.opening ++ trace)) := by
  rw [Wiring.carryAll_append, Wiring.carryAll_opening]
  refine .append (.opening h) ?_
  rwa [Receiver.feedAll_opening h]

theorem instruction (wiring : Wiring) (i : Instruction cols) (h : r.Quiet) :
    Orderly r past (wiring.carryAll i.signals) := by
  cases i with
  | shift row => exact .opened wiring h (.columns wiring _ h)
  | latchAll => exact .opened wiring h (.burst wiring h (by decide) (by decide))
  | resetCounter => exact .opened wiring h (.burst wiring h (by decide) (by decide))
  | configure value =>
    have counted : 1 ≤ (Burst.configData value).latched ∧ (Burst.configData value).latched ≤ 16 :=
      ⟨Nat.le_add_left 1 10, Nat.le_add_left 11 5⟩
    have enables : 1 ≤ Burst.configEnable.latched ∧ Burst.configEnable.latched ≤ 16 := by decide
    have enabled := (Receiver.feedAll_burst wiring h enables).1
    rw [Instruction.signals, List.append_assoc]
    refine .opened wiring h ?_
    rw [Wiring.carryAll_append]
    refine .append (.burst wiring h enables (by decide)) ?_
    exact .burst wiring enabled counted fun _ => rfl
  | output on =>
    refine .of_drives wiring fun s hs => ?_
    exact ⟨_, _, List.mem_singleton.mp hs, by simp, by simp⟩
  | rowsOff count =>
    refine .of_drives wiring fun s hs => ?_
    obtain ⟨n, -, rfl⟩ := List.mem_map.mp hs
    exact ⟨_, _, rfl, by simp, by simp⟩
  | rowOn row =>
    refine .of_drives wiring fun s hs => ?_
    exact ⟨_, _, List.mem_singleton.mp hs, by simp, by simp⟩

theorem instructions (wiring : Wiring) (sent : List ((cols : Nat) × Instruction cols))
    (h : r.Quiet) : Orderly r past (wiring.carryAll (sent.flatMap fun i => i.2.signals)) := by
  induction sent generalizing r past with
  | nil => exact .of_not_mem List.not_mem_nil List.not_mem_nil
  | cons i sent ih =>
    rw [List.flatMap_cons, Wiring.carryAll_append]
    refine .append (.instruction wiring i.2 h) ?_
    exact ih (Receiver.readings_instruction wiring i.2 h).1

/-- The same for the instructions of one grid. -/
theorem sent (wiring : Wiring) (is : List (Instruction cols)) (h : r.Quiet) :
    Orderly r past (wiring.carryAll (is.flatMap Instruction.signals)) := by
  have all : Orderly r past (wiring.carryAll
      ((is.map (⟨cols, ·⟩ : _ → (cols : Nat) × Instruction cols)).flatMap fun i => i.2.signals)) :=
    instructions wiring _ h
  rwa [List.flatMap_map] at all

theorem timer (wiring : Wiring) {signal : Signal} (h : signal.onLines = false) :
    Orderly r past (wiring.carryAll [signal]) := by
  have same : wiring.carryAll [signal] = [signal] := by
    cases signal with
    | drive _ _ | present _ => cases h
    | timerPeriod _ | timerOn => cases wiring <;> rfl
  rw [same]
  refine .of_not_mem ?_ ?_ <;>
  · intro hs
    rw [← List.mem_singleton.mp hs] at h
    cases h

end Orderly

/-! ## Runs -/

namespace Controller

variable {leds rows cols : Nat} {r : Receiver}

theorem orderly_start (wiring : Wiring) (config : Config) (period : Period) (h : r.Quiet) :
    Orderly r [] (wiring.carryAll (startTrace rows cols config period)) := by
  rw [carryAll_startTrace]
  refine .append (.timer wiring rfl) (.append ?_ (.timer wiring rfl))
  rw [Receiver.feedAll_carry_timer wiring rfl]
  exact .sent wiring _ h

/-- Clock, data and latch keep in step. From low clock and latch on, in any sequence of
instructions and in any run, every rise of the clock is followed at once by its fall, all
words of a burst are presented before its latch line falls, and clock and latch end low. -/
theorem clock_data_latch_in_step (wiring : Wiring) (h : r.Quiet) :
    (∀ burst : Burst, burst.data.isSome = true → ∀ past,
      (Trace.leads past (wiring.carryAll burst.signals)).length = 16 ∧
        ∀ lead ∈ Trace.leads past (wiring.carryAll burst.signals), lead.PresentsData) ∧
      (∀ sent : List ((cols : Nat) × Instruction cols),
        let trace := wiring.carryAll (sent.flatMap fun i => i.2.signals)
        Orderly r [] trace ∧
          (∀ s x, s ++ [x] <+: trace → (r.feedAll s).levels .clock = .high →
            x = .drive .clock .low) ∧
          (r.feedAll trace).Quiet) ∧
      ∀ {leds rows cols : Nat} {timebase : Timebase} {config : Config} {layout : Layout leds}
        {banks : Banks rows cols} {c : Controller leds rows cols} {t : Trace},
        start timebase config layout banks = .ok (c, t) →
        ∀ actions : List Action, (∀ a ∈ actions, a.isDirect = false) →
          let trace := wiring.carryAll (t ++ (c.run actions).2)
          Orderly r [] trace ∧
            (∀ s x, s ++ [x] <+: trace → (r.feedAll s).levels .clock = .high →
              x = .drive .clock .low) ∧
            ∀ past, past <+: c.history actions →
              (r.feedAll (wiring.carryAll (t ++ past.flatMap Moment.trace))).Quiet := by
  refine ⟨fun burst hdata => Burst.leads_signals wiring hdata, ?_, ?_⟩
  · intro sent trace
    have orderly : Orderly r [] trace := .instructions wiring sent h
    refine ⟨orderly, fun s x hs high => ?_, (Receiver.feedAll_instructions wiring sent h).1⟩
    rw [Receiver.levels_feedAll] at high
    exact orderly.pulsed.eq_fall h.clock hs high
  · intro leds rows cols timebase config layout banks c t hstart actions hdirect trace
    have started := quiet_start hstart wiring r
    have ordinary : ∀ m ∈ c.history actions, m.action ≠ .step → m.isCall = true := by
      intro m hm
      obtain ⟨older, newer, split⟩ := List.append_of_mem hm
      exact isCall_of_history hdirect split
    have orderly : Orderly r [] trace := by
      have sent := trace_of_moments ordinary
      rw [trace_history] at sent
      obtain ⟨_, period, _, _, rfl⟩ := eq_fresh_of_start hstart
      simp only [trace, Wiring.carryAll_append, sent]
      exact .append (orderly_start wiring config period h) (.sent wiring _ started)
    refine ⟨orderly, fun s x hs high => ?_, fun past hpast => ?_⟩
    · rw [Receiver.levels_feedAll] at high
      exact orderly.pulsed.eq_fall h.clock hs high
    · rw [Wiring.carryAll_append, Receiver.feedAll_append]
      exact quiet_of_moments started wiring fun m hm => ordinary m (hpast.subset hm)

/-- A tick that first writes a gain: the first clock that the board sees rise falls
at once, and the board is at rest when the tick has ended. -/
theorem clock_data_latch_in_step_gain :
    let r : Receiver := ⟨Levels.low, [], 0, []⟩
    let actions : List Action := .call (.setGain 7) :: List.replicate 5 .step
    let past := twoRows.history actions
    let seen := Wiring.direct.carryAll (startTrace 2 1 {} ⟨556⟩ ++ (twoRows.run actions).2)
    r.Quiet ∧ start .microseconds {} #v[⟨0, 0⟩] (.dark : Banks 2 1) =
      .ok (twoRows, startTrace 2 1 {} ⟨556⟩) ∧
      (∀ a ∈ actions, a.isDirect = false) ∧
      (r.feedAll (seen.take 7)).levels .clock = .high ∧ seen[7]? = some (.drive .clock .low) ∧
      (r.feedAll (Wiring.direct.carryAll
        (startTrace 2 1 {} ⟨556⟩ ++ past.flatMap Moment.trace))).Quiet := by
  intro r actions past seen
  have quiet : r.Quiet := ⟨rfl, rfl⟩
  have ordinary : ∀ a ∈ actions, a.isDirect = false := by decide
  obtain ⟨_, _, runs⟩ := clock_data_latch_in_step .direct quiet
  obtain ⟨_, falls, rests⟩ := runs start_twoRows actions ordinary
  have risen : (r.feedAll (seen.take 7)).levels .clock = .high := by decide +kernel
  obtain ⟨x, hx⟩ : ∃ x, seen[7]? = some x := ⟨_, rfl⟩
  have next : seen.take 7 ++ [x] <+: seen := by
    have taken : seen.take 8 = seen.take 7 ++ seen[7]?.toList := List.take_add_one
    rw [hx] at taken
    exact taken ▸ List.take_prefix 8 seen
  refine ⟨quiet, start_twoRows, ordinary, risen, ?_, rests past (List.prefix_refl _)⟩
  rw [hx, falls _ x next risen]

end Controller

end LedMatrix

import LedMatrix.Proofs.Dues

/-! # How long a flush takes

A frame that is flushed waits until the cursor is about to send the first row, and is
then sent row by row for one scan. So how many ticks pass until it has been on every
row depends on where the flush meets the cursor, and on nothing else: not on the frames
that were flushed before, and not on what the application does meanwhile. -/

namespace LedMatrix.Controller

variable {leds rows cols : Nat} {now next : Controller leds rows cols}

/-- How many ticks it takes, from now on, until a frame that is flushed now has been on
every row. The tick that is under way counts as the first. -/
def latency (now : Controller leds rows cols) : Nat :=
  if now.phase = .idle ∧ now.row.val = 0 then rows else 2 * rows - now.row.val

/-- A scan takes its own rows; what comes before it is the rest of the scan under way. -/
theorem latency_cases (now : Controller leds rows cols) :
    (now.phase = .idle ∧ now.row.val = 0) ∧ now.latency = rows ∨
      ¬(now.phase = .idle ∧ now.row.val = 0) ∧ now.latency = 2 * rows - now.row.val := by
  by_cases first : now.phase = .idle ∧ now.row.val = 0
  · exact .inl ⟨first, if_pos first⟩
  · exact .inr ⟨first, if_neg first⟩

theorem rows_le_latency (now : Controller leds rows cols) : rows ≤ now.latency := by
  have := now.row.isLt
  rcases now.latency_cases with ⟨_, h⟩ | ⟨_, h⟩ <;> omega

theorem latency_of_later (later : now.row.val = 0 → now.phase ≠ .idle) :
    now.latency = 2 * rows - now.row.val :=
  if_neg fun first => later first.2 first.1

/-! ## The way of a flushed frame -/

/-- How far a frame has come that was flushed before the given past, `k` ticks ahead of
the end of its scan, while another one was shown. -/
inductive Showing (shown flushed : Bank rows cols) (k : Nat) (past : List (Moment leds rows cols))
    (now : Controller leds rows cols) : Prop where
  | waits (waiting : now.mailbox.waiting = true) (published : now.mailbox.published = flushed)
      (active : now.active = shown) (left : turnsOf past + now.latency = k)
  | scans (rests : now.mailbox.waiting = false) (firstScan : now.mailbox.firstScan = true)
      (active : now.active = flushed) (left : turnsOf past + rows = k + now.row.val)
      (begun : now.row.val = 0 → now.phase ≠ .idle)
  | done (rests : now.mailbox.waiting = false) (firstScan : now.mailbox.firstScan = false)
      (active : now.active = flushed) (gone : k ≤ turnsOf past)

variable {shown flushed : Bank rows cols} {k : Nat} {past : List (Moment leds rows cols)}
  {m : Moment leds rows cols}

namespace Showing

theorem flush (now : Controller leds rows cols) :
    Showing now.active (drawn now.layout now.canvas.curve (some now.frame)) now.latency []
      now.flush :=
  .waits rfl (Bank.encode_eq_encode_dark ..) rfl (Nat.zero_add _)

/-- A moment that is no turn and adopts nothing leaves a frame where it is. -/
theorem keep (h : Showing shown flushed k past m.before) (hm : m.runs .select = false)
    (same : m.before.SameScan next) (latency : m.before.mailbox.waiting = true →
      next.latency = m.before.latency)
    (begun : m.before.phase ≠ .idle → next.phase ≠ .idle) :
    Showing shown flushed k (past ++ [m]) next := by
  have turns := turnsOf_other past hm
  cases h with
  | waits waiting published active left =>
    refine .waits (same.waiting.trans waiting) (same.published.trans published)
      (same.active.trans active) ?_
    rw [turns, latency waiting, left]
  | scans rests firstScan active left under =>
    refine .scans (same.waiting.trans rests) (same.firstScan.trans firstScan)
      (same.active.trans active) ?_ fun hr => begun (under (same.row ▸ hr))
    rw [turns, same.row, left]
  | done rests firstScan active gone =>
    exact .done (same.waiting.trans rests) (same.firstScan.trans firstScan)
      (same.active.trans active) (turns ▸ gone)

/-- The last turn of a scan: a frame that waits has a whole scan to go, and one that is
shown has been on every row. -/
theorem ended (h : Showing shown flushed k past now) (hp : now.phase = .select)
    (last : now.row.val + 1 = rows) :
    Showing shown flushed k (past ++ [.ofStep now]) now.endTick := by
  have same := sameBanks_endTick now
  have turns : turnsOf (past ++ [.ofStep now]) = turnsOf past + 1 :=
    turnsOf_select past (by simp [Moment.runs, hp])
  have row : now.endTick.row.val = 0 := Scanner.nextRow_of_last last
  have noted : now.endTick.mailbox.firstScan = false := by
    simp [endTick, Scanner.nextRow_of_last last, Mailbox.completeScan]
  cases h with
  | waits waiting published active left =>
    refine .waits (same.waiting.trans waiting) (same.published.trans published)
      (same.active.trans active) ?_
    have whole : now.endTick.latency = rows := if_pos ⟨rfl, row⟩
    rw [latency_of_later fun _ => by simp [hp]] at left
    omega
  | scans rests firstScan active left begun =>
    exact .done (same.waiting.trans rests) noted (same.active.trans active) (by omega)
  | done rests firstScan active gone =>
    exact .done (same.waiting.trans rests) noted (same.active.trans active) (by omega)

/-- Any other turn brings a frame one tick nearer to the end of its scan. -/
theorem lit (h : Showing shown flushed k past now) (hp : now.phase = .select)
    (inside : now.row.val + 1 < rows) :
    Showing shown flushed k (past ++ [.ofStep now]) now.endTick := by
  have same := sameBanks_endTick now
  have turns : turnsOf (past ++ [.ofStep now]) = turnsOf past + 1 :=
    turnsOf_select past (by simp [Moment.runs, hp])
  have row : now.endTick.row.val = now.row.val + 1 := Scanner.nextRow_of_lt inside
  have later : now.endTick.row.val = 0 → now.endTick.phase ≠ .idle := fun first =>
    absurd (row.symm.trans first) (Nat.succ_ne_zero _)
  have goesOn : now.endTick.mailbox.firstScan = now.mailbox.firstScan := by
    have next : now.scanner.nextRow.val ≠ 0 := fun first =>
      absurd (row.symm.trans first) (Nat.succ_ne_zero _)
    simp [endTick, next]
  cases h with
  | waits waiting published active left =>
    refine .waits (same.waiting.trans waiting) (same.published.trans published)
      (same.active.trans active) ?_
    rw [latency_of_later fun _ => by simp [hp]] at left
    rw [latency_of_later later]
    omega
  | scans rests firstScan active left begun =>
    exact .scans (same.waiting.trans rests) (goesOn.trans firstScan) (same.active.trans active)
      (by omega) later
  | done rests firstScan active gone =>
    exact .done (same.waiting.trans rests) (goesOn.trans firstScan) (same.active.trans active)
      (by omega)

theorem step (h : Showing shown flushed k past now) :
    Showing shown flushed k (past ++ [.ofStep now]) now.step.1 := by
  cases effect_step now with
  | flushed flush => simp [Moment.isFlush] at flush
  | lit selects result =>
    have hp : now.phase = .select := by simpa [Moment.runs] using selects
    rw [result]
    rcases Nat.lt_or_ge (now.row.val + 1) rows with inside | last
    · exact h.lit hp inside
    · exact h.ended hp (Nat.le_antisymm now.row.isLt last)
  | adopted begins waits result =>
    obtain ⟨idle, first⟩ : now.phase = .idle ∧ now.row.val = 0 := by
      simpa [Moment.beginsScan, Moment.runs] using begins
    have turns : turnsOf (past ++ [.ofStep now]) = turnsOf past :=
      turnsOf_other past (by simp [Moment.runs, idle])
    cases h with
    | waits _ published _ left =>
      have whole : now.latency = rows := if_pos ⟨idle, first⟩
      have row : now.step.1.row.val = 0 := by
        rw [result]
        exact first
      have midTick : now.step.1.phase = .transfer := phase_step_of idle
      refine .scans ?_ ?_ ?_ (by omega) fun _ => by simp [midTick]
      all_goals rw [result]
      exact published
    | scans rests | done rests => exact absurd (waits.symm.trans rests) (by decide)
  | quiet _ noSelect settled same =>
    have midTick : now.step.1.phase ≠ .idle := by
      rw [phase_step, ne_eq, Phase.next_eq_idle_iff]
      simpa [Moment.runs] using noSelect
    refine h.keep noSelect same (fun waiting => ?_) fun _ => midTick
    -- idle at the first row, a step would adopt the bank that waits
    have later : now.row.val = 0 → now.phase ≠ .idle := by
      intro first idle
      exact absurd ((settled (by simp [Moment.beginsScan, Moment.runs, idle, first])).symm.trans
        waiting) (by decide)
    rw [latency_of_later later, latency_of_later fun _ => midTick, same.row]

/-- Whatever else happens leaves the scan as it is. -/
theorem other {a : Action} (h : Showing shown flushed k past now) (ht : a ≠ .tick)
    (hf : a ≠ .call .flush) (hs : a ≠ .step) :
    Showing shown flushed k (past ++ [⟨now, a⟩]) (now.run [a]).1 := by
  have same : now.SameScan (now.run [a]).1 := sameScan_run ht hf hs
  have phase : (now.run [a]).1.phase = now.phase := by
    cases a with
    | tick => exact absurd rfl ht
    | step => exact absurd rfl hs
    | call call => exact (sameCursor_run_call now call).phase
    | drive _ _ | present _ => rfl
  refine h.keep (by simp [Moment.runs, hs]) same (fun _ => ?_) (by rw [phase]; exact id)
  rw [latency, latency, phase, same.row]

end Showing

theorem keeps_showing {actions : List Action} (once : .call .flush ∉ actions) :
    Keeps actions fun past (now : Controller leds rows cols) =>
      Showing shown flushed k past now := by
  intro past now a ht ha h
  by_cases hs : a = .step
  · subst hs
    rw [run_step_fst]
    exact h.step
  · have listed : a ∈ actions := ha.resolve_right hs
    exact h.other ht (fun hf => once (hf ▸ listed)) hs

namespace Showing

/-! ## What can be seen of it -/

theorem isPending_iff (h : Showing shown flushed k past now) :
    now.isPending = true ↔ turnsOf past < k := by
  have pending : now.isPending = (now.mailbox.waiting || now.mailbox.firstScan) := rfl
  have row := now.row.isLt
  have scan := now.rows_le_latency
  cases h with
  | waits waiting _ _ left =>
    have before : turnsOf past < k := by omega
    simp [pending, waiting, before]
  | scans rests firstScan _ left _ =>
    have before : turnsOf past < k := by omega
    simp [pending, firstScan, before]
  | done rests firstScan _ gone => simp [pending, rests, firstScan, gone]

/-- Until its scan begins, the frame that was shown before stays. -/
theorem active_before (h : Showing shown flushed k past now)
    (before : turnsOf past + rows < k ∨ turnsOf past + rows = k ∧ now.phase = .idle) :
    now.active = shown := by
  have row := now.row.isLt
  cases h with
  | waits _ _ active _ => exact active
  | scans _ _ _ left begun =>
    rcases before with before | ⟨before, idle⟩
    · omega
    · exact absurd idle (begun (by omega))
  | done _ _ _ gone => omega

/-- From then on the flushed frame is shown. -/
theorem active_from (h : Showing shown flushed k past now)
    (begun : k < turnsOf past + rows ∨ turnsOf past + rows = k ∧ now.phase ≠ .idle) :
    now.active = flushed := by
  have row := now.row.isLt
  have scan := now.rows_le_latency
  cases h with
  | waits _ _ _ left =>
    obtain ⟨whole, midTick⟩ : turnsOf past + rows = k ∧ now.phase ≠ .idle := by
      rcases begun with early | begun
      · omega
      · exact begun
    have later : now.latency = 2 * rows - now.row.val := latency_of_later fun _ => midTick
    omega
  | scans _ _ active | done _ _ active => exact active

/-- A tick that begins during the scan sends the row that is next, of the flushed frame. -/
theorem due {row : Fin rows} (h : Showing shown flushed k past now) (hp : now.phase = .idle)
    (turn : turnsOf past + rows = k + row.val) :
    (Moment.ofStep now).due =
      now.mailbox.queue.commands.map Command.instruction ++ flushed.visit row := by
  have inside := row.isLt
  have cursor := now.row.isLt
  have scan := now.rows_le_latency
  obtain ⟨atRow, sends⟩ : now.row.val = row.val ∧ now.step.1.active = flushed := by
    cases h with
    | waits waiting published _ left =>
      rcases now.latency_cases with ⟨⟨_, first⟩, whole⟩ | ⟨_, longer⟩
      · refine ⟨by omega, ?_⟩
        rw [step_idle_of_waiting hp first waiting]
        exact published
      · omega
    | scans rests _ active left _ =>
      refine ⟨by omega, ?_⟩
      rw [step_idle_of_not_waiting hp fun _ => rests]
      exact active
    | done _ _ _ gone => omega
  rw [due_of_idle hp, sends, Fin.ext atRow]

end Showing

/-! ## The latency of a flush -/

/-- While ticks are left whole, the scan of a flushed frame begins between two of them. -/
theorem idle_of_begun (now : Controller leds rows cols) {later : List Action}
    (whole : ∀ a ∈ later, a ≠ .step)
    (begun : now.latency ≤ (now.run [.call .flush]).1.ended later + rows) :
    ((now.run [.call .flush]).1.run later).1.phase = .idle := by
  rw [phase_ticks _ whole]
  by_cases ticked : .tick ∈ later
  · exact if_pos ticked
  · -- without a tick the scan begins at once, so the flush came between two scans
    have none : (now.run [.call .flush]).1.ended later = 0 :=
      (ended_ticks _ whole).trans (List.count_eq_zero.mpr ticked)
    have row := now.row.isLt
    rw [if_neg ticked]
    rcases now.latency_cases with ⟨⟨idle, _⟩, _⟩ | ⟨_, longer⟩
    · exact idle
    · omega

/-- A flush takes exactly its latency. Without another flush the frame is pending until as
many ticks ended as `latency` says, and no longer. The last `rows` of them are its first scan:
until it begins, the bank that was shown at the flush stays, and from then on the frame is
shown, row by row. -/
theorem flush_takes_its_latency (now : Controller leds rows cols) (later : List Action)
    (once : .call .flush ∉ later) :
    let bank : Bank rows cols := drawn now.layout now.canvas.curve (some now.frame)
    let flushed := (now.run [.call .flush]).1
    let after := (flushed.run later).1
    (after.isPending = true ↔ flushed.ended later < now.latency) ∧
      (flushed.ended later + rows < now.latency ∨
          flushed.ended later + rows = now.latency ∧ after.phase = .idle →
        after.active = now.active) ∧
      (now.latency < flushed.ended later + rows ∨
          flushed.ended later + rows = now.latency ∧ after.phase ≠ .idle →
        after.active = bank) ∧
      (∀ s tick rest, later = s ++ tick ++ rest → (flushed.run s).1.WholeTick tick →
        ∀ row : Fin rows, flushed.ended s + rows = now.latency + row.val →
          ((flushed.run s).1.run tick).2 =
            ((((flushed.run s).1.history tick).flatMap Moment.taken).map Command.instruction ++
              bank.visit row).flatMap Instruction.signals) ∧
      (.step ∉ later → flushed.ended later = later.count .tick ∧
        (now.latency ≤ flushed.ended later + rows → after.WholeTick [.tick])) := by
  intro bank flushed after
  have begins : Showing now.active bank now.latency [] flushed := .flush now
  have showing : Showing now.active bank now.latency (flushed.history later) after :=
    (keeps_showing once).run begins
  refine ⟨showing.isPending_iff, showing.active_before, showing.active_from, ?_, ?_⟩
  · intro s tick rest split whole row turn
    obtain ⟨older, met, newer, history, idle, turns, _, taken, sent⟩ := whole.begins_after
    have onceStill : .call .flush ∉ s ++ tick := fun hf =>
      once (split ▸ List.mem_append_left rest hf)
    have showingMet : Showing now.active bank now.latency older met :=
      (keeps_showing onceStill).moment begins history
    rw [sent, taken, showingMet.due idle (turns ▸ turn)]
  · intro whole
    have noStep : ∀ a ∈ later, a ≠ .step := fun a ha he => whole (he ▸ ha)
    exact ⟨ended_ticks flushed noStep, fun begun => wholeTick_tick (now.idle_of_begun noStep begun)⟩

/-- Two rows, flushed while the second of them is being sent: the rest of that tick,
and a scan of two ticks. The gain that is asked for meanwhile is set as the scan
begins, and the frame is pending until its end. -/
theorem flush_takes_its_latency_mid_tick :
    let now : Controller 1 2 1 := (twoRows.run [.call (.setColor 0 ⟨255, 0, 0⟩), .tick, .step]).1
    let bank : Bank 2 1 := drawn now.layout now.canvas.curve (some now.frame)
    let flushed := (now.run [.call .flush]).1
    let begun := (flushed.run [.tick, .call (.setGain 5)]).1
    let later : List Action := [.tick, .call (.setGain 5), .tick, .tick]
    (now.row.val = 1 ∧ now.phase = .transfer ∧ now.frame = ⟨#v[⟨255, 0, 0⟩]⟩) ∧
      now.latency = 3 ∧ .call .flush ∉ later ∧ begun.active = .dark ∧
      begun.WholeTick [.tick] ∧
      (begun.run [.tick]).2 =
        (Instruction.setGain 5 :: bank.visit 0).flatMap Instruction.signals ∧
      (flushed.run [.tick, .call (.setGain 5), .tick]).1.isPending = true ∧
      (flushed.run later).1.isPending = false := by
  intro now bank flushed begun later
  have latency : now.latency = 3 := by decide +kernel
  have once : .call .flush ∉ later := by decide
  have idle : begun.phase = .idle := by decide +kernel
  have dark : now.active = .dark := by decide +kernel
  have whole : begun.WholeTick [.tick] := wholeTick_tick idle
  have gain : (begun.history [.tick]).flatMap Moment.taken = [.setGain 5] := by decide +kernel
  have one : flushed.ended [.tick, .call (.setGain 5)] = 1 := ended_ticks flushed (by decide)
  have two : flushed.ended [.tick, .call (.setGain 5), .tick] = 2 := ended_ticks flushed (by decide)
  have three : flushed.ended later = 3 := ended_ticks flushed (by decide)
  obtain ⟨_, before, _, _, _⟩ :=
    flush_takes_its_latency now [.tick, .call (.setGain 5)] (by decide)
  obtain ⟨pending, _⟩ :=
    flush_takes_its_latency now [.tick, .call (.setGain 5), .tick] (by decide)
  obtain ⟨gone, _, _, sends, _⟩ := flush_takes_its_latency now later once
  have sent := sends [.tick, .call (.setGain 5)] [.tick] [.tick] rfl whole 0 (by
    rw [one, latency]
    rfl)
  rw [gain] at sent
  refine ⟨by decide +kernel, latency, once, ?_, whole, sent, ?_, ?_⟩
  · rw [← dark]
    exact before (.inr ⟨by rw [one, latency], idle⟩)
  · rw [pending, two, latency]
    decide
  · rw [← Bool.not_eq_true, gone, three, latency]
    decide

end LedMatrix.Controller

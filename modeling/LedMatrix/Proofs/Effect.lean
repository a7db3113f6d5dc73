import LedMatrix.Proofs.History

/-! # What one moment can do to the scan

Of all that the two sides may do, three kinds of moments concern the banks and
the pending state: a flush, the adoption of a waiting bank, and the end of a
tick. Every other moment leaves what the scan works with as it is. -/

namespace LedMatrix

variable {leds rows cols : Nat}

theorem Scanner.nextRow_of_lt {s : Scanner rows cols} (h : s.row.val + 1 < rows) :
    s.nextRow.val = s.row.val + 1 := Nat.mod_eq_of_lt h

theorem Scanner.nextRow_of_last {s : Scanner rows cols} (h : s.row.val + 1 = rows) :
    s.nextRow.val = 0 := by
  show (s.row.val + 1) % rows = 0
  rw [h, Nat.mod_self]

namespace Controller

variable {c : Controller leds rows cols}

/-! ## One step, phase by phase -/

theorem step_idle_of_waiting (hp : c.phase = .idle) (hr : c.row.val = 0)
    (hw : c.mailbox.waiting = true) :
    c.step.1 = { c with
      mailbox := ⟨c.active, false, true, .empty⟩
      scanner := { c.scanner with active := c.mailbox.published, phase := .transfer } } := by
  have hr' : c.scanner.row.val = 0 := hr
  simp [step_of_idle hp, beginTick, hr', Mailbox.adopt, Mailbox.drained, hw, active]

theorem step_idle_of_not_waiting (hp : c.phase = .idle)
    (h : c.row.val = 0 → c.mailbox.waiting = false) :
    c.step.1 = { c with
      mailbox := c.mailbox.drained
      scanner := { c.scanner with phase := .transfer } } := by
  by_cases hr : c.scanner.row.val = 0
  · have hw := h hr
    simp [step_of_idle hp, beginTick, hr, Mailbox.adopt, Mailbox.drained, hw]
  · simp [step_of_idle hp, beginTick, hr]

theorem step_select (hp : c.phase = .select) : c.step.1 = c.endTick := by
  simp [step, hp]

theorem step_of_ne (hi : c.phase ≠ .idle) (hs : c.phase ≠ .select) :
    c.step.1 = c.enter c.phase.next := by
  cases hp : c.phase with
  | idle => exact absurd hp hi
  | select => exact absurd hp hs
  | transfer | latch | reset => simp [step, hp, Phase.next]

/-! ## The queue -/

/-- A controller whose queue was replaced. -/
def queued (c : Controller leds rows cols) (queue : CommandQueue) : Controller leds rows cols :=
  { c with mailbox := { c.mailbox with queue } }

theorem post_of_some {command : Command} {queue : CommandQueue}
    (h : c.mailbox.queue.push? command = some queue) : c.post command = .ok (c.queued queue) := by
  simp [post, Mailbox.post, h, Except.map, queued]

theorem post_of_none {command : Command} (h : c.mailbox.queue.push? command = none) :
    c.post command = .error (.queueFull command) := by
  simp [post, Mailbox.post, h, Except.map]

theorem post_eq_error_iff {command : Command} {fault : Fault} :
    c.post command = .error fault ↔
      fault = .queueFull command ∧ c.mailbox.queue.commands.length = CommandQueue.capacity := by
  rw [← Mailbox.post_eq_error_iff, post]
  cases c.mailbox.post command <;> simp [Except.map]

/-- Only the first step of a tick takes commands out of the queue. -/
theorem queue_step (h : c.phase ≠ .idle) : c.step.1.mailbox.queue = c.mailbox.queue := by
  by_cases hs : c.phase = .select
  · rw [step_select hs, endTick]
    split <;> rfl
  · rw [step_of_ne h hs]
    rfl

/-- The first step of a tick takes every command that waits. -/
theorem queue_step_idle (hp : c.phase = .idle) : c.step.1.mailbox.queue = .empty := by
  by_cases h : c.row.val = 0 ∧ c.mailbox.waiting = true
  · rw [step_idle_of_waiting hp h.1 h.2]
  · rw [step_idle_of_not_waiting hp (by simpa using h)]
    rfl

/-! ## Calls -/

theorem run_of_error {call : Call} {fault : Fault} (h : c.call call = .error fault) :
    c.run [.call call] = (c, []) := by
  simp [run, act, h, Except.map]

theorem run_of_ok {call : Call} {next : Controller leds rows cols} (h : c.call call = .ok next) :
    c.run [.call call] = (next, []) := by
  simp [run, act, h, Except.map]

structure SameBanks (now next : Controller leds rows cols) : Prop where
  layout : next.layout = now.layout
  curve : next.canvas.curve = now.canvas.curve
  published : next.mailbox.published = now.mailbox.published
  waiting : next.mailbox.waiting = now.mailbox.waiting
  active : next.active = now.active

/-- What the scan works with is the same. -/
structure SameScan (now next : Controller leds rows cols) : Prop extends SameBanks now next where
  firstScan : next.mailbox.firstScan = now.mailbox.firstScan
  row : next.row = now.row

theorem SameScan.refl (c : Controller leds rows cols) : c.SameScan c :=
  ⟨⟨rfl, rfl, rfl, rfl, rfl⟩, rfl, rfl⟩

theorem sameBanks_endTick (c : Controller leds rows cols) : c.SameBanks c.endTick := by
  unfold endTick
  split <;> exact ⟨rfl, rfl, rfl, rfl, rfl⟩

theorem sameScan_of_post {command : Command} {next : Controller leds rows cols}
    (h : c.post command = .ok next) : c.SameScan next := by
  unfold post Mailbox.post at h
  split at h
  · cases h
    exact ⟨⟨rfl, rfl, rfl, rfl, rfl⟩, rfl, rfl⟩
  · cases h

theorem sameScan_of_call {call : Call} {next : Controller leds rows cols} (hf : call ≠ .flush)
    (h : c.call call = .ok next) : c.SameScan next := by
  cases call with
  | flush => exact absurd rfl hf
  | setGain gain => exact sameScan_of_post h
  | setOutput on => exact sameScan_of_post h
  | fill color =>
    cases h
    exact ⟨⟨rfl, rfl, rfl, rfl, rfl⟩, rfl, rfl⟩
  | setColor index color =>
    simp only [Controller.call, Except.map] at h
    split at h
    · cases h
    · cases h
      exact ⟨⟨rfl, rfl, rfl, rfl, rfl⟩, rfl, rfl⟩

/-- Only a flush and a step change what the scan works with. -/
theorem sameScan_run {a : Action} (ht : a ≠ .tick) (hf : a ≠ .call .flush) (hs : a ≠ .step) :
    c.SameScan (c.run [a]).1 := by
  cases a with
  | tick => exact absurd rfl ht
  | step => exact absurd rfl hs
  | drive _ _ | present _ => exact .refl c
  | call call =>
    have hc : call ≠ .flush := fun he => hf (he ▸ rfl)
    cases h : c.call call with
    | error _ =>
      rw [run_of_error h]
      exact .refl c
    | ok next =>
      rw [run_of_ok h]
      exact sameScan_of_call hc h

end Controller

/-! ## The kinds of moments -/

/-- How a moment leads to the next controller. -/
inductive Effect (m : Moment leds rows cols)
    (next : Controller leds rows cols) : Prop where
  | flushed (flush : m.isFlush = true) (result : next = m.before.flush)
  | adopted (begins : m.beginsScan = true) (waiting : m.before.mailbox.waiting = true)
      (result : next = { m.before with
        mailbox := ⟨m.before.active, false, true, .empty⟩
        scanner := { m.before.scanner with
          active := m.before.mailbox.published, phase := .transfer } })
  | lit (selects : m.runs .select = true) (result : next = m.before.endTick)
  | quiet (noFlush : m.isFlush = false) (noSelect : m.runs .select = false)
      (settled : m.beginsScan = true → m.before.mailbox.waiting = false)
      (same : m.before.SameScan next)

theorem effect_step (c : Controller leds rows cols) :
    Effect ⟨c, .step⟩ c.step.1 := by
  by_cases hs : c.phase = .select
  · exact .lit (by simp [Moment.runs, hs]) (Controller.step_select hs)
  by_cases hi : c.phase = .idle
  · by_cases h : c.row.val = 0 ∧ c.mailbox.waiting = true
    · obtain ⟨hr, hw⟩ := h
      exact .adopted (by simp [Moment.beginsScan, Moment.runs, hi, hr]) hw
        (Controller.step_idle_of_waiting hi hr hw)
    · have settled : c.row.val = 0 → c.mailbox.waiting = false := by simpa using h
      refine .quiet (by simp [Moment.isFlush]) (by simp [Moment.runs, hs]) ?_ ?_
      · intro hb
        exact settled (by simp_all [Moment.beginsScan])
      · rw [Controller.step_idle_of_not_waiting hi settled]
        exact ⟨⟨rfl, rfl, rfl, rfl, rfl⟩, rfl, rfl⟩
  · refine .quiet (by simp [Moment.isFlush]) (by simp [Moment.runs, hs]) ?_ ?_
    · intro hb
      simp [Moment.beginsScan, Moment.runs, hi] at hb
    · rw [Controller.step_of_ne hi hs]
      exact ⟨⟨rfl, rfl, rfl, rfl, rfl⟩, rfl, rfl⟩

theorem effect_run (c : Controller leds rows cols) {a : Action}
    (ht : a ≠ .tick) : Effect ⟨c, a⟩ (c.run [a]).1 := by
  by_cases hf : a = .call .flush
  · subst hf
    exact .flushed (by simp [Moment.isFlush]) rfl
  by_cases hs : a = .step
  · subst hs
    rw [Controller.run_step]
    exact effect_step c
  · refine .quiet (by simp [Moment.isFlush, hf]) (by simp [Moment.runs, hs]) ?_
      (Controller.sameScan_run ht hf hs)
    intro hb
    simp [Moment.beginsScan, Moment.runs, hs] at hb

end LedMatrix

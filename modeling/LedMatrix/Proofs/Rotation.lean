import LedMatrix.Proofs.Effect
import Mathlib.Data.List.DropRight

/-! # The rotation of the banks shows whole frames

A flush draws into the bank that came back last, and the scan takes the
published bank only when it is about to send the first row. So what is shown
is the frame of one flush: the last one before the latest scan began. -/

namespace LedMatrix

variable {leds rows cols : Nat}

/-- The frame as it stood at the last flush. -/
def flushedFrame? (past : List (Moment leds rows cols)) : Option (Frame leds) :=
  (past.reverse.find? Moment.isFlush).map (·.before.frame)

/-- The frame as it stood at the last flush before the latest scan began. -/
def scannedFrame? (past : List (Moment leds rows cols)) : Option (Frame leds) :=
  flushedFrame? (past.rdropWhile fun m => !m.beginsScan)

/-- The bank that shows a frame, or a dark one before there is a frame. -/
def drawn (layout : Layout leds) (curve : Curve) : Option (Frame leds) → Bank rows cols
  | none => .dark
  | some frame => Bank.dark.encode frame layout curve

section Frames

variable (past : List (Moment leds rows cols)) {m : Moment leds rows cols}

theorem Moment.isFlush_of_beginsScan (h : m.beginsScan = true) : m.isFlush = false := by
  simp_all [beginsScan, runs, isFlush]

theorem Moment.isFlush_of_runs {phase : Phase} (h : m.runs phase = true) : m.isFlush = false := by
  simp_all [runs, isFlush]

theorem Moment.beginsScan_of_isFlush (h : m.isFlush = true) : m.beginsScan = false := by
  simp_all [beginsScan, runs, isFlush]

theorem Moment.beginsScan_of_select (h : m.runs .select = true) : m.beginsScan = false := by
  simp_all [beginsScan, runs]

theorem flushedFrame?_flush (h : m.isFlush = true) :
    flushedFrame? (past ++ [m]) = some m.before.frame := by
  simp [flushedFrame?, h]

theorem flushedFrame?_other (h : m.isFlush = false) :
    flushedFrame? (past ++ [m]) = flushedFrame? past := by
  simp [flushedFrame?, h]

theorem scannedFrame?_begins (h : m.beginsScan = true) :
    scannedFrame? (past ++ [m]) = flushedFrame? past := by
  rw [scannedFrame?, List.rdropWhile_concat_neg _ _ _ (by simp [h]),
    flushedFrame?_other past (Moment.isFlush_of_beginsScan h)]

theorem scannedFrame?_other (h : m.beginsScan = false) :
    scannedFrame? (past ++ [m]) = scannedFrame? past := by
  rw [scannedFrame?, List.rdropWhile_concat_pos _ _ _ (by simp [h]), scannedFrame?]

/-- Within a scan the frame stays the one that was flushed before it began. -/
theorem scannedFrame?_within {scan : List (Moment leds rows cols)} (hm : m.beginsScan = true)
    (hs : ∀ s ∈ scan, s.beginsScan = false) :
    scannedFrame? (past ++ m :: scan) = flushedFrame? past := by
  induction scan using List.reverseRecOn with
  | nil => exact scannedFrame?_begins past hm
  | append_singleton scan s ih =>
    have hlast : s.beginsScan = false := hs s (by simp)
    rw [show past ++ m :: (scan ++ [s]) = (past ++ m :: scan) ++ [s] by simp,
      scannedFrame?_other _ hlast]
    exact ih fun s hs' => hs s (List.mem_append_left _ hs')

end Frames

namespace Controller

/-- What the banks hold after the given past. -/
structure Rotates (layout : Layout leds) (curve : Curve) (past : List (Moment leds rows cols))
    (now : Controller leds rows cols) : Prop where
  hasLayout : now.layout = layout
  hasCurve : now.canvas.curve = curve
  active : now.active = drawn layout curve (scannedFrame? past)
  published : now.mailbox.waiting = true →
    now.mailbox.published = drawn layout curve (flushedFrame? past)
  settled : now.mailbox.waiting = false → scannedFrame? past = flushedFrame? past

variable {layout : Layout leds} {curve : Curve} {past : List (Moment leds rows cols)}
  {now next : Controller leds rows cols} {a : Action}

theorem Rotates.flush (h : Rotates layout curve past now)
    (hm : (⟨now, a⟩ : Moment ..).isFlush = true) :
    Rotates layout curve (past ++ [⟨now, a⟩]) now.flush := by
  refine ⟨h.hasLayout, h.hasCurve, ?_, ?_, nofun⟩
  · rw [scannedFrame?_other past (Moment.beginsScan_of_isFlush hm)]
    exact h.active
  · intro _
    rw [flushedFrame?_flush past hm, drawn, ← h.hasLayout, ← h.hasCurve]
    exact Bank.encode_eq_encode_dark ..

theorem Rotates.adopt (h : Rotates layout curve past now)
    (hm : (⟨now, a⟩ : Moment ..).beginsScan = true) (hw : now.mailbox.waiting = true) :
    Rotates layout curve (past ++ [⟨now, a⟩]) { now with
      mailbox := ⟨now.active, false, true, .empty⟩
      scanner := { now.scanner with active := now.mailbox.published, phase := .transfer } } := by
  have hs := scannedFrame?_begins past hm
  have hf := flushedFrame?_other past (Moment.isFlush_of_beginsScan hm)
  refine ⟨h.hasLayout, h.hasCurve, ?_, nofun, fun _ => hs.trans hf.symm⟩
  rw [hs]
  exact h.published hw

/-- A moment that is no flush and adopts nothing leaves the three banks as they
are. It may still begin a scan, of the bank that was adopted before. -/
theorem Rotates.keep (h : Rotates layout curve past now)
    (hf : (⟨now, a⟩ : Moment ..).isFlush = false)
    (hb : (⟨now, a⟩ : Moment ..).beginsScan = true → now.mailbox.waiting = false)
    (same : now.SameBanks next) :
    Rotates layout curve (past ++ [⟨now, a⟩]) next := by
  have hflushed := flushedFrame?_other past hf
  have hscanned : scannedFrame? (past ++ [⟨now, a⟩]) = scannedFrame? past := by
    cases begins : (⟨now, a⟩ : Moment leds rows cols).beginsScan with
    | false => exact scannedFrame?_other past begins
    | true => exact (scannedFrame?_begins past begins).trans (h.settled (hb begins)).symm
  refine ⟨same.layout.trans h.hasLayout, same.curve.trans h.hasCurve, ?_, ?_, ?_⟩
  · rw [same.active, hscanned]
    exact h.active
  · intro waits
    rw [same.published, hflushed]
    exact h.published (same.waiting ▸ waits)
  · intro rests
    rw [hscanned, hflushed]
    exact h.settled (same.waiting ▸ rests)

theorem keeps_rotates (actions : List Action) :
    Keeps actions fun past (now : Controller leds rows cols) => Rotates layout curve past now := by
  intro past now a ht _ h
  cases effect_run now ht with
  | flushed hf hn => exact hn ▸ h.flush hf
  | adopted hb hw hn => exact hn ▸ h.adopt hb hw
  | quiet hf _ hb same => exact h.keep hf hb same.toSameBanks
  | lit hs hn =>
    have hb := Moment.beginsScan_of_select hs
    exact h.keep (Moment.isFlush_of_runs hs) (by simp [hb]) (hn ▸ sameBanks_endTick now)

theorem rotates_fresh (config : Config) (layout : Layout leds) (banks : Banks rows cols)
    (hr : 1 ≤ rows ∧ rows ≤ 256) :
    Rotates layout config.curve [] (fresh config layout banks hr) := by
  refine ⟨rfl, rfl, ?_, nofun, fun _ => rfl⟩
  simp [fresh, Controller.active, scannedFrame?, flushedFrame?, drawn, Banks.dark]

/-! ## No tearing -/

variable {timebase : Timebase} {config : Config} {banks : Banks rows cols}
  {c : Controller leds rows cols} {t : Trace}

theorem rotates_run (h : start timebase config layout banks = .ok (c, t)) (actions : List Action) :
    Rotates layout config.curve (c.history actions) (c.run actions).1 := by
  obtain ⟨hr, _, _, rfl, _⟩ := eq_fresh_of_start h
  exact (keeps_rotates actions).run (rotates_fresh config layout banks hr)

theorem rotates_moment (h : start timebase config layout banks = .ok (c, t)) {actions : List Action}
    {older newer : List (Moment leds rows cols)} {m : Moment leds rows cols}
    (hm : c.history actions = older ++ m :: newer) :
    Rotates layout config.curve older m.before := by
  obtain ⟨hr, _, _, rfl, _⟩ := eq_fresh_of_start h
  exact (keeps_rotates actions).moment (rotates_fresh config layout banks hr) hm

/-- The signals of a transfer: all rows go dark, then the row's data is sent. -/
def transferTrace (bank : Bank rows cols) (row : Fin rows) : Trace :=
  (Instruction.rowsOff rows : Instruction cols).signals ++
    (Instruction.shift (getElem bank row row.isLt)).signals

theorem trace_of_transfer {m : Moment leds rows cols} (h : m.runs .transfer = true) :
    m.trace = transferTrace m.before.active m.before.row := by
  obtain ⟨before, a⟩ := m
  obtain ⟨ha, hp⟩ : a = .step ∧ before.phase = .transfer := by simpa [Moment.runs] using h
  subst ha
  simp [Moment.trace, run_step, emit, step, hp, Scanner.current, active, row, transferTrace]

theorem trace_of_isCall {m : Moment leds rows cols} (h : m.isCall = true) : m.trace = [] := by
  obtain ⟨before, a⟩ := m
  cases a with
  | step | tick | drive _ _ | present _ => cases h
  | call call =>
    cases hc : before.call call <;> simp [Moment.trace, run, act, hc, Except.map]

/-- No tearing. After every run the active bank shows the frame of the last
flush before the latest scan began; every row sent within one scan is a row of
the one frame flushed before that scan; and a call sends no signal. -/
theorem active_shows_one_flush (h : start timebase config layout banks = .ok (c, t))
    (actions : List Action) :
    (c.run actions).1.active =
        drawn layout config.curve (scannedFrame? (c.history actions)) ∧
      (∀ older first scan newer, c.history actions = older ++ first :: (scan ++ newer) →
        first.beginsScan = true → (∀ m ∈ scan, m.beginsScan = false) →
        ∀ m ∈ scan, m.runs .transfer = true →
          m.trace = transferTrace
            (drawn layout config.curve (flushedFrame? older) : Bank rows cols) m.before.row) ∧
      ∀ m ∈ c.history actions, m.isCall = true → m.trace = [] := by
  refine ⟨(rotates_run h actions).active, ?_, fun m _ => trace_of_isCall⟩
  intro older first scan newer hsplit hfirst hscan m hm hruns
  obtain ⟨before, after, rfl⟩ := List.append_of_mem hm
  have hat : c.history actions = (older ++ first :: before) ++ m :: (after ++ newer) := by
    simp [hsplit]
  have hshown := (rotates_moment h hat).active
  rw [scannedFrame?_within older hfirst fun s hs => hscan s (by simp [hs])] at hshown
  rw [trace_of_transfer hruns, hshown]

/-- A frame that is painted over and flushed again while its scan runs. -/
theorem active_shows_one_flush_repainted :
    start .microseconds {} #v[⟨0, 0⟩] (.dark : Banks 2 1) =
      .ok (twoRows, startTrace 2 1 {} ⟨556⟩) ∧
      (twoRows.run ([.call (.fill ⟨255, 0, 0⟩), .call .flush, .step, .call (.fill ⟨0, 9, 0⟩),
        .call .flush] ++ List.replicate 6 .step)).1.active =
        drawn #v[⟨0, 0⟩] .reference (some ⟨#v[⟨255, 0, 0⟩]⟩) := by
  refine ⟨start_twoRows, (active_shows_one_flush start_twoRows _).1.trans ?_⟩
  exact congrArg (drawn #v[⟨0, 0⟩] .reference) (by decide)

end Controller

end LedMatrix

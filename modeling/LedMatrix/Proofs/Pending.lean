import LedMatrix.Proofs.Rotation

/-! # What pending means

A flush is pending until the frame has been on every row: until a scan has
begun after the flush and its last row has been lit. The mailbox splits this
time at the adoption of the bank, so the two flags are tied to the moments since
the last flush, one to the beginning of a scan and one to its end. -/

namespace LedMatrix

variable {leds rows cols : Nat}

/-- Somewhere in the list an entry with `p` comes before an entry with `q`. -/
def Precedes {α : Type} (p q : α → Prop) (l : List α) : Prop :=
  ∃ x y, [x, y].Sublist l ∧ p x ∧ q y

section Precedes

variable {α : Type} {p q : α → Prop} {l : List α} {z : α}

theorem precedes_concat :
    Precedes p q (l ++ [z]) ↔ Precedes p q l ∨ ((∃ x ∈ l, p x) ∧ q z) := by
  constructor
  · rintro ⟨x, y, hs, hp, hq⟩
    obtain ⟨front, back, he, hfront, hback⟩ := List.sublist_append_iff.mp hs
    rcases List.sublist_singleton.mp hback with hb | hb
    · subst hb
      rw [List.append_nil] at he
      exact .inl ⟨x, y, he ▸ hfront, hp, hq⟩
    · subst hb
      have he : [x] ++ [y] = front ++ [z] := he
      obtain ⟨hx, hy⟩ := List.append_inj' he rfl
      cases hy
      exact .inr ⟨⟨x, hfront.subset (by simp [← hx]), hp⟩, hq⟩
  · rintro (⟨x, y, hs, hp, hq⟩ | ⟨⟨x, hx, hp⟩, hq⟩)
    · exact ⟨x, y, hs.trans (List.sublist_append_left l [z]), hp, hq⟩
    · exact ⟨x, z, (List.singleton_sublist.mpr hx).append (List.Sublist.refl [z]), hp, hq⟩

theorem Precedes.exists_first (h : Precedes p q l) : ∃ x ∈ l, p x := by
  obtain ⟨x, _, hs, hp, _⟩ := h
  exact ⟨x, hs.subset List.mem_cons_self, hp⟩

end Precedes

/-! ## The moments since the last flush -/

/-- The moments after the last flush; all of them if there was none. -/
def sinceFlush (past : List (Moment leds rows cols)) : List (Moment leds rows cols) :=
  past.rtakeWhile fun m => !m.isFlush

def Flushed (past : List (Moment leds rows cols)) : Prop := ∃ m ∈ past, m.isFlush = true

/-- A scan has begun since the last flush. -/
def Begun (past : List (Moment leds rows cols)) : Prop :=
  ∃ m ∈ sinceFlush past, m.beginsScan = true

/-- Since the last flush a scan has begun, and later the last row was lit. -/
def ScannedOut (past : List (Moment leds rows cols)) : Prop :=
  Precedes (fun m => m.beginsScan = true) (fun m => m.endsScan = true) (sinceFlush past)

/-- Since the last flush a scan has begun, and later a row was lit while the
given bank was shown. -/
def ShownOn (bank : Bank rows cols) (row : Fin rows) (past : List (Moment leds rows cols)) : Prop :=
  Precedes (fun m => m.beginsScan = true)
    (fun m => m.runs .select = true ∧ m.before.row = row ∧ m.before.active = bank) (sinceFlush past)

section Since

variable (past : List (Moment leds rows cols)) {m : Moment leds rows cols}

theorem sinceFlush_flush (h : m.isFlush = true) : sinceFlush (past ++ [m]) = [] :=
  List.rtakeWhile_concat_neg _ _ _ (by simp [h])

theorem sinceFlush_other (h : m.isFlush = false) :
    sinceFlush (past ++ [m]) = sinceFlush past ++ [m] :=
  List.rtakeWhile_concat_pos _ _ _ (by simp [h])

theorem flushed_flush (h : m.isFlush = true) : Flushed (past ++ [m]) := ⟨m, by simp, h⟩

theorem flushed_other (h : m.isFlush = false) : Flushed (past ++ [m]) ↔ Flushed past := by
  simp [Flushed, or_and_right, exists_or, h]

theorem not_begun_flush (h : m.isFlush = true) : ¬Begun (past ++ [m]) := by
  simp [Begun, sinceFlush_flush past h]

theorem begun_other (h : m.isFlush = false) :
    Begun (past ++ [m]) ↔ Begun past ∨ m.beginsScan = true := by
  simp [Begun, sinceFlush_other past h, or_and_right, exists_or]

theorem scannedOut_other (h : m.isFlush = false) :
    ScannedOut (past ++ [m]) ↔ ScannedOut past ∨ (Begun past ∧ m.endsScan = true) := by
  rw [ScannedOut, sinceFlush_other past h, precedes_concat]
  rfl

theorem shownOn_other {bank : Bank rows cols} {row : Fin rows} (h : m.isFlush = false) :
    ShownOn bank row (past ++ [m]) ↔ ShownOn bank row past ∨
      (Begun past ∧ m.runs .select = true ∧ m.before.row = row ∧ m.before.active = bank) := by
  rw [ShownOn, sinceFlush_other past h, precedes_concat]
  rfl

/-- Once a scan has begun since the last flush, it shows the flushed frame. -/
theorem scannedFrame?_of_begun (h : Begun past) : scannedFrame? past = flushedFrame? past := by
  induction past using List.reverseRecOn with
  | nil => obtain ⟨m, hm, _⟩ := h; cases hm
  | append_singleton past m ih =>
    cases hf : m.isFlush with
    | true => exact absurd h (not_begun_flush past hf)
    | false =>
      rw [flushedFrame?_other past hf]
      cases hb : m.beginsScan with
      | true => exact scannedFrame?_begins past hb
      | false =>
        rw [scannedFrame?_other past hb]
        exact ih (((begun_other past hf).mp h).resolve_right (by simp [hb]))

theorem ScannedOut.begun (h : ScannedOut past) : Begun past := h.exists_first

end Since

section Kinds

variable {m : Moment leds rows cols}

theorem Moment.endsScan_of_not_select (h : m.runs .select = false) : m.endsScan = false := by
  simp [endsScan, h]

theorem Moment.endsScan_of_beginsScan (h : m.beginsScan = true) : m.endsScan = false := by
  simp_all [beginsScan, endsScan, runs]

theorem Moment.isFlush_of_endsScan (h : m.endsScan = true) : m.isFlush = false := by
  simp_all [endsScan, runs, isFlush]

theorem Moment.beginsScan_of_endsScan (h : m.endsScan = true) : m.beginsScan = false := by
  simp_all [endsScan, beginsScan, runs]

end Kinds

namespace Controller

/-! ## The two flags -/

structure Awaits (past : List (Moment leds rows cols)) (now : Controller leds rows cols) :
    Prop where
  waiting : now.mailbox.waiting = true ↔ Flushed past ∧ ¬Begun past
  firstScan : now.mailbox.waiting = false →
    (now.mailbox.firstScan = true ↔ Flushed past ∧ ¬ScannedOut past)

variable {past : List (Moment leds rows cols)} {now next : Controller leds rows cols} {a : Action}

/-- Either flag may be the one that is set; neither is set exactly when the
flushed frame has been scanned out. -/
theorem Awaits.isPending_iff (h : Awaits past now) :
    now.isPending = true ↔ Flushed past ∧ ¬ScannedOut past := by
  have hor : now.isPending = true ↔
      now.mailbox.waiting = true ∨ now.mailbox.firstScan = true := by
    simp [isPending, Mailbox.isPending]
  rw [hor]
  cases hw : now.mailbox.waiting with
  | true =>
    obtain ⟨hf, hb⟩ := h.waiting.mp hw
    exact iff_of_true (.inl rfl) ⟨hf, fun hs => hb (hs.begun past)⟩
  | false => simpa using h.firstScan hw

theorem Awaits.flush (hm : (⟨now, a⟩ : Moment ..).isFlush = true) :
    Awaits (past ++ [⟨now, a⟩]) now.flush :=
  ⟨iff_of_true rfl ⟨flushed_flush past hm, not_begun_flush past hm⟩, nofun⟩

theorem Awaits.adopt (h : Awaits past now) (hm : (⟨now, a⟩ : Moment ..).beginsScan = true)
    (hw : now.mailbox.waiting = true) (hn : next.mailbox.waiting = false)
    (hs : next.mailbox.firstScan = true) : Awaits (past ++ [⟨now, a⟩]) next := by
  have hf := Moment.isFlush_of_beginsScan hm
  have hend := Moment.endsScan_of_beginsScan hm
  obtain ⟨flushed, fresh⟩ := h.waiting.mp hw
  refine ⟨?_, fun _ => ?_⟩
  · rw [begun_other past hf]
    simp [hn, hm]
  · rw [flushed_other past hf, scannedOut_other past hf]
    refine iff_of_true hs ⟨flushed, ?_⟩
    rintro (done | ⟨_, hlast⟩)
    · exact fresh (done.begun past)
    · simp [hend] at hlast

/-- A moment that adopts nothing and does not end a scan leaves both flags. It
may begin a scan only if nothing waits, and then one had begun before. -/
theorem Awaits.keep (h : Awaits past now) (hf : (⟨now, a⟩ : Moment ..).isFlush = false)
    (hb : (⟨now, a⟩ : Moment ..).beginsScan = true → now.mailbox.waiting = false)
    (hl : (⟨now, a⟩ : Moment ..).endsScan = false)
    (hw : next.mailbox.waiting = now.mailbox.waiting)
    (hs : next.mailbox.firstScan = now.mailbox.firstScan) : Awaits (past ++ [⟨now, a⟩]) next := by
  have hout : ScannedOut (past ++ [⟨now, a⟩]) ↔ ScannedOut past := by
    rw [scannedOut_other past hf]
    simp [hl]
  refine ⟨?_, fun rests => ?_⟩
  · rw [hw, h.waiting, flushed_other past hf, begun_other past hf]
    refine and_congr_right fun flushed => ⟨fun fresh => ?_, fun fresh begun => fresh (.inl begun)⟩
    rintro (begun | begins)
    · exact fresh begun
    · have waits := h.waiting.mpr ⟨flushed, fresh⟩
      rw [hb begins] at waits
      cases waits
  · rw [hs, h.firstScan (hw ▸ rests), flushed_other past hf, hout]

/-- The end of a scan. If nothing waits, the frame that was scanned is the last
one flushed. -/
theorem Awaits.finish (h : Awaits past now) (hm : (⟨now, a⟩ : Moment ..).endsScan = true)
    (hw : next.mailbox.waiting = now.mailbox.waiting) (hs : next.mailbox.firstScan = false) :
    Awaits (past ++ [⟨now, a⟩]) next := by
  have hf := Moment.isFlush_of_endsScan hm
  have hb := Moment.beginsScan_of_endsScan hm
  refine ⟨?_, fun rests => ?_⟩
  · rw [hw, h.waiting, flushed_other past hf, begun_other past hf]
    simp [hb]
  · rw [flushed_other past hf, scannedOut_other past hf]
    refine iff_of_false (by simp [hs]) ?_
    rintro ⟨flushed, unshown⟩
    have begun : Begun past := by
      by_contra fresh
      have waits := h.waiting.mpr ⟨flushed, fresh⟩
      rw [← hw, rests] at waits
      cases waits
    exact unshown (.inr ⟨begun, hm⟩)

theorem Awaits.lit (h : Awaits past now) (hm : (⟨now, a⟩ : Moment ..).runs .select = true) :
    Awaits (past ++ [⟨now, a⟩]) now.endTick := by
  by_cases hlast : now.scanner.row.val + 1 = rows
  · have hend : (⟨now, a⟩ : Moment ..).endsScan = true := by
      simp [Moment.endsScan, hm, row, hlast]
    refine h.finish hend (sameBanks_endTick now).waiting ?_
    simp [endTick, Scanner.nextRow_of_last hlast, Mailbox.completeScan]
  · have hr := now.scanner.row.isLt
    have hnext := Scanner.nextRow_of_lt (s := now.scanner) (by omega)
    have hend : (⟨now, a⟩ : Moment ..).endsScan = false := by
      simp [Moment.endsScan, row, hlast]
    refine h.keep (Moment.isFlush_of_runs hm) (by simp [Moment.beginsScan_of_select hm]) hend
      (sameBanks_endTick now).waiting ?_
    simp [endTick, hnext]

theorem keeps_awaits (actions : List Action) :
    Keeps actions fun past (now : Controller leds rows cols) => Awaits past now := by
  intro past now a ht _ h
  cases effect_run now ht with
  | flushed hf hn => exact hn ▸ .flush hf
  | adopted hb hw hn => exact h.adopt hb hw (hn ▸ rfl) (hn ▸ rfl)
  | lit hs hn => exact hn ▸ h.lit hs
  | quiet hf hs hb same =>
    exact h.keep hf hb (Moment.endsScan_of_not_select hs) same.waiting same.firstScan

theorem awaits_fresh (config : Config) (layout : Layout leds) (banks : Banks rows cols)
    (hr : 1 ≤ rows ∧ rows ≤ 256) : Awaits [] (fresh config layout banks hr) := by
  refine ⟨iff_of_false (by simp [fresh, Mailbox.idle]) ?_, fun _ =>
    iff_of_false (by simp [fresh, Mailbox.idle]) ?_⟩ <;>
  · rintro ⟨⟨m, hm, _⟩, _⟩
    cases hm

/-! ## Every row has shown the frame -/

/-- Since the last flush, rows are lit in order once a scan has begun: those
below the current row have shown the flushed frame, and all of them have once
the scan has ended. -/
structure Covers (layout : Layout leds) (curve : Curve) (past : List (Moment leds rows cols))
    (now : Controller leds rows cols) : Prop extends Rotates layout curve past now where
  shown : ∀ r : Fin rows, Begun past → r.val < now.row.val ∨ ScannedOut past →
    ShownOn (drawn layout curve (flushedFrame? past)) r past

variable {layout : Layout leds} {curve : Curve}

theorem Covers.keep (h : Covers layout curve past now)
    (hr : Rotates layout curve (past ++ [⟨now, a⟩]) next)
    (hf : (⟨now, a⟩ : Moment ..).isFlush = false) (hs : (⟨now, a⟩ : Moment ..).runs .select = false)
    (same : next.row = now.row) : Covers layout curve (past ++ [⟨now, a⟩]) next := by
  refine ⟨hr, fun r begun hor => ?_⟩
  rw [flushedFrame?_other past hf, shownOn_other past hf]
  rw [scannedOut_other past hf, same] at hor
  rw [begun_other past hf] at begun
  have hend := Moment.endsScan_of_not_select hs
  left
  rcases hor with hlt | done | ⟨_, hlast⟩
  · -- a moment that begins a scan meets the first row, and no row is below it
    have hb : (⟨now, a⟩ : Moment ..).beginsScan = false := by
      simp only [Moment.beginsScan, decide_eq_false_iff_not]
      rintro ⟨_, hzero⟩
      rw [hzero] at hlt
      exact absurd hlt (Nat.not_lt_zero _)
    exact h.shown r (begun.resolve_right (by simp [hb])) (.inl hlt)
  · exact h.shown r (done.begun past) (.inr done)
  · simp [hend] at hlast

theorem Covers.lit (h : Covers layout curve past now)
    (hr : Rotates layout curve (past ++ [⟨now, a⟩]) now.endTick)
    (hm : (⟨now, a⟩ : Moment ..).runs .select = true) :
    Covers layout curve (past ++ [⟨now, a⟩]) now.endTick := by
  have hf := Moment.isFlush_of_runs hm
  refine ⟨hr, fun r begun hor => ?_⟩
  rw [begun_other past hf] at begun
  have begun := begun.resolve_right (by simp [Moment.beginsScan_of_select hm])
  rw [flushedFrame?_other past hf, shownOn_other past hf]
  rw [scannedOut_other past hf] at hor
  have hactive : now.active = drawn layout curve (flushedFrame? past) := by
    rw [← scannedFrame?_of_begun past begun]
    exact h.active
  have here : r.val = now.row.val ∨ r.val < now.row.val ∨ ScannedOut past := by
    rcases hor with hlt | done | ⟨_, hlast⟩
    · have hle : r.val < now.row.val + 1 :=
        Nat.lt_of_lt_of_le hlt (Nat.mod_le _ _)
      omega
    · exact .inr (.inr done)
    · have hrows : now.row.val + 1 = rows := by simp_all [Moment.endsScan]
      have := r.isLt
      omega
  rcases here with heq | hcovered
  · exact .inr ⟨begun, hm, Fin.ext heq.symm, hactive⟩
  · exact .inl (h.shown r begun hcovered)

theorem keeps_covers (actions : List Action) :
    Keeps actions fun past (now : Controller leds rows cols) => Covers layout curve past now := by
  intro past now a ht hmem h
  have hr := keeps_rotates actions past now a ht hmem h.toRotates
  cases effect_run now ht with
  | flushed hf hn => exact ⟨hr, fun r begun => absurd begun (not_begun_flush past hf)⟩
  | adopted hb hw hn =>
    refine h.keep hr (Moment.isFlush_of_beginsScan hb) ?_ (hn ▸ rfl)
    simp_all [Moment.beginsScan, Moment.runs]
  | quiet hf hs _ same => exact h.keep hr hf hs same.row
  | lit hs hn =>
    rw [hn] at hr ⊢
    exact h.lit hr hs

theorem covers_fresh (config : Config) (layout : Layout leds) (banks : Banks rows cols)
    (hr : 1 ≤ rows ∧ rows ≤ 256) :
    Covers layout config.curve [] (fresh config layout banks hr) := by
  refine ⟨rotates_fresh config layout banks hr, fun r begun => ?_⟩
  obtain ⟨m, hm, _⟩ := begun
  cases hm

variable {timebase : Timebase} {config : Config} {banks : Banks rows cols}
  {c : Controller leds rows cols} {t : Trace}

/-- A controller is pending exactly while there was a flush after which no scan
has begun and ended; it is no longer so exactly when every row was lit with the
flushed frame. The panel that holds the controller says the same. -/
theorem isPending_iff_not_scannedOut (h : start timebase config layout banks = .ok (c, t))
    (actions : List Action) :
    ((c.run actions).1.isPending = true ↔
        Flushed (c.history actions) ∧ ¬ScannedOut (c.history actions)) ∧
      (Flushed (c.history actions) →
        ((c.run actions).1.isPending = false ↔ ∀ r : Fin rows, ShownOn
          (drawn layout config.curve (flushedFrame? (c.history actions))) r
          (c.history actions))) ∧
      ∀ wiring : Wiring, ((⟨wiring, .stopped banks⟩ : Panel leds rows cols).serve timebase
        (.start config layout :: actions.map .act)).1.isPending = (c.run actions).1.isPending := by
  have hserve := fun wiring : Wiring => Panel.serve_start wiring h actions
  obtain ⟨hr, _, _, rfl, _⟩ := eq_fresh_of_start h
  have awaits := (keeps_awaits actions).run (awaits_fresh config layout banks hr)
  have covers := (keeps_covers actions).run (covers_fresh config layout banks hr)
  refine ⟨awaits.isPending_iff, fun flushed => ⟨fun rests r => ?_, fun shown => ?_⟩, ?_⟩
  · have done : ScannedOut ((fresh config layout banks hr).history actions) := by
      by_contra undone
      rw [awaits.isPending_iff.mpr ⟨flushed, undone⟩] at rests
      cases rests
    exact covers.shown r (done.begun _) (.inr done)
  · have last := shown ⟨rows - 1, by omega⟩
    have done : ScannedOut ((fresh config layout banks hr).history actions) := by
      obtain ⟨first, m, hs, begins, selects, hrow, _⟩ := last
      refine ⟨first, m, hs, begins, ?_⟩
      have hval : m.before.row.val = rows - 1 := congrArg Fin.val hrow
      simp only [Moment.endsScan, selects, hval, decide_eq_true_eq, true_and]
      omega
    rw [← Bool.not_eq_true, awaits.isPending_iff]
    exact fun pending => pending.2 done
  · intro wiring
    rw [hserve wiring]
    rfl

/-- Two rows take ten steps: one step before their end the flush is pending,
and at their end both rows have shown it. -/
theorem isPending_iff_not_scannedOut_two_rows :
    start .microseconds {} #v[⟨0, 0⟩] (.dark : Banks 2 1) =
      .ok (twoRows, startTrace 2 1 {} ⟨556⟩) ∧
      ¬ScannedOut (twoRows.history (.call .flush :: List.replicate 9 .step)) ∧
      ∀ r : Fin 2, ShownOn (drawn #v[⟨0, 0⟩] .reference (flushedFrame?
        (twoRows.history (.call .flush :: List.replicate 10 .step)))) r
        (twoRows.history (.call .flush :: List.replicate 10 .step)) := by
  have before := isPending_iff_not_scannedOut start_twoRows (.call .flush :: List.replicate 9 .step)
  have after := isPending_iff_not_scannedOut start_twoRows (.call .flush :: List.replicate 10 .step)
  refine ⟨start_twoRows, (before.1.mp (by decide)).2, (after.2.1 ?_).mp (by decide)⟩
  exact ⟨_, List.mem_cons_self, rfl⟩

end Controller

end LedMatrix

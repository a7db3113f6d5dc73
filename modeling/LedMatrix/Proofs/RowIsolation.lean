import LedMatrix.Proofs.Events
import LedMatrix.Proofs.Interleaving
import Mathlib.Data.List.Forall2

/-! # What one row shows concerns no other row

Two runs are compared that paint the LEDs of one row differently and do the same
otherwise. Drawing a frame puts an LED's planes on its own row, banks change hands
as wholes, and how long a row takes to send does not depend on what it shows. So
the runs differ in that row alone, and on the board in the words that send it. -/

namespace LedMatrix

variable {leds rows cols : Nat} {r : Nat}

/-! ## Two banks that differ in one row -/

/-- The same banks, except perhaps for one row. -/
def Bank.SameBut (r : Nat) (a b : Bank rows cols) : Prop := ∀ q, q ≠ r → a[q]? = b[q]?

namespace Bank

variable {a b : Bank rows cols}

theorem SameBut.refl (r : Nat) (a : Bank rows cols) : a.SameBut r a := fun _ _ => rfl

theorem SameBut.put (h : a.SameBut r b) {position : Position} {x y : Planes}
    (hxy : position.row.toNat = r ∨ x = y) :
    (a.put position x).SameBut r (b.put position y) := by
  intro q hq
  have same : a[q]? = b[q]? := h q hq
  unfold Bank.put
  split
  · rename_i inside
    rw [Vector.getElem?_set, Vector.getElem?_set]
    split
    · rename_i here
      obtain rfl : x = y := hxy.resolve_left fun hr => hq (here.symm.trans hr)
      subst here
      rw [Vector.getElem?_eq_getElem inside, Vector.getElem?_eq_getElem inside] at same
      rw [Option.some.inj same]
    · exact same
  · exact same

theorem SameBut.draw {s t : List (Position × Planes)} (h : a.SameBut r b)
    (hst : List.Forall₂ (fun x y => x.1 = y.1 ∧ (x.1.row.toNat = r ∨ x.2 = y.2)) s t) :
    (a.draw s).SameBut r (b.draw t) := by
  induction hst generalizing a b with
  | nil => exact h
  | @cons x y s t hxy _ ih =>
    obtain ⟨position, x⟩ := x
    obtain ⟨rfl, hxy⟩ := hxy
    exact ih (h.put hxy)

end Bank

/-- Whether an index names an LED on a row. -/
def Layout.onRow (layout : Layout leds) (r index : Nat) : Bool :=
  layout[index]?.any fun position => position.row.toNat = r

/-- Frames that differ on the LEDs of one row are drawn into banks that differ in that
row, whatever the banks held. -/
theorem Bank.SameBut.encode (a b : Bank rows cols) {f g : Frame leds} {layout : Layout leds}
    (curve : Curve) (h : ∀ index, layout.onRow r index = false → f.get? index = g.get? index) :
    (a.encode f layout curve).SameBut r (b.encode g layout curve) := by
  rw [Bank.encode, Bank.encode, Bank.clear_eq_dark, Bank.clear_eq_dark]
  refine Bank.SameBut.draw (.refl r _) ?_
  rw [Bank.cells, Bank.cells, List.forall₂_map_left_iff, List.forall₂_map_right_iff,
    List.forall₂_same]
  refine fun led _ => ⟨rfl, ?_⟩
  by_cases hr : layout[led].row.toNat = r
  · exact .inl hr
  · refine .inr (congrArg (planesOf curve) ?_)
    have same := h led (by simpa [Layout.onRow] using hr)
    simpa [Frame.get?] using same

/-! ## Two runs that paint one row differently -/

/-- The same call, except perhaps for the color that an LED on the row is painted. -/
inductive Call.Alike (layout : Layout leds) (r : Nat) : Call → Call → Prop where
  | same (call : Call) : Alike layout r call call
  | recolored {index : Nat} (x y : Color) (h : layout.onRow r index = true) :
      Alike layout r (.setColor index x) (.setColor index y)

inductive Action.Alike (layout : Layout leds) (r : Nat) : Action → Action → Prop where
  | call {a b : Call} (h : a.Alike layout r b) : Alike layout r (.call a) (.call b)
  | step : Alike layout r .step .step
  | tick : Alike layout r .tick .tick
  | drive (line : Line) (level : Level) : Alike layout r (.drive line level) (.drive line level)
  | present (word : Word) : Alike layout r (.present word) (.present word)

theorem Action.Alike.refl (layout : Layout leds) (r : Nat) (a : Action) : a.Alike layout r a := by
  cases a with
  | call call => exact .call (.same call)
  | step => exact .step
  | tick => exact .tick
  | drive line level => exact .drive line level
  | present word => exact .present word

/-- Every run is like itself. -/
theorem Action.Alike.refl_all (layout : Layout leds) (r : Nat) (s : List Action) :
    List.Forall₂ (Action.Alike layout r) s s :=
  List.forall₂_same.mpr fun a _ => .refl layout r a

namespace Controller

variable {now other : Controller leds rows cols} {layout : Layout leds}

/-- Two controllers of one layout that differ in what they hold of one row, and in the
bank that the next frame is drawn over. -/
structure Isolated (layout : Layout leds) (r : Nat) (now other : Controller leds rows cols) : Prop
    extends SameCursor now other where
  layouts : now.layout = layout ∧ other.layout = layout
  curve : now.canvas.curve = other.canvas.curve
  frame : ∀ index, layout.onRow r index = false → now.frame.get? index = other.frame.get? index
  published : now.mailbox.published.SameBut r other.mailbox.published
  active : now.active.SameBut r other.active
  waiting : now.mailbox.waiting = other.mailbox.waiting
  firstScan : now.mailbox.firstScan = other.mailbox.firstScan
  queue : now.mailbox.queue = other.mailbox.queue

namespace Isolated

theorem refl (r : Nat) (now : Controller leds rows cols) : Isolated now.layout r now now :=
  ⟨⟨rfl, rfl⟩, ⟨rfl, rfl⟩, rfl, fun _ _ => rfl, .refl r _, .refl r _, rfl, rfl, rfl⟩

/-! ### One action -/

theorem step (h : Isolated layout r now other) : Isolated layout r now.step.1 other.step.1 := by
  have cursor := h.toSameCursor.step
  have row : now.scanner.row = other.scanner.row := h.row
  by_cases hi : now.phase = .idle
  · have hi' : other.phase = .idle := h.phase ▸ hi
    by_cases hw : now.row.val = 0 ∧ now.mailbox.waiting = true
    · have hw' : other.row.val = 0 ∧ other.mailbox.waiting = true := h.row ▸ h.waiting ▸ hw
      rw [step_idle_of_waiting hi hw.1 hw.2, step_idle_of_waiting hi' hw'.1 hw'.2] at cursor ⊢
      exact { h with
        toSameCursor := cursor, published := h.active, active := h.published
        waiting := rfl, firstScan := rfl, queue := rfl }
    · have settled : now.row.val = 0 → now.mailbox.waiting = false := by simpa using hw
      have settled' : other.row.val = 0 → other.mailbox.waiting = false :=
        h.row ▸ h.waiting ▸ settled
      rw [step_idle_of_not_waiting hi settled, step_idle_of_not_waiting hi' settled'] at cursor ⊢
      exact { h with toSameCursor := cursor, queue := rfl }
  · by_cases hs : now.phase = .select
    · rw [step_select hs, step_select (h.phase ▸ hs)] at cursor ⊢
      have wraps : now.scanner.nextRow = other.scanner.nextRow := by
        simp only [Scanner.nextRow, row]
      by_cases hz : now.scanner.nextRow.val = 0
      · have hz' : other.scanner.nextRow.val = 0 := wraps ▸ hz
        simp only [endTick, hz, hz', if_true] at cursor ⊢
        exact { h with toSameCursor := cursor, firstScan := rfl }
      · have hz' : other.scanner.nextRow.val ≠ 0 := wraps ▸ hz
        simp only [endTick, hz, hz', if_false] at cursor ⊢
        exact { h with toSameCursor := cursor }
    · have hi' : other.phase ≠ .idle := h.phase ▸ hi
      have hs' : other.phase ≠ .select := h.phase ▸ hs
      rw [step_of_ne hi hs, step_of_ne hi' hs'] at cursor ⊢
      exact { h with toSameCursor := cursor }

/-! ### Calls -/

/-- Both calls are refused for the same reason, or both are carried out. -/
inductive Results (layout : Layout leds) (r : Nat) :
    Except Fault (Controller leds rows cols) → Except Fault (Controller leds rows cols) → Prop where
  | refused (fault : Fault) : Results layout r (.error fault) (.error fault)
  | done {now other : Controller leds rows cols} (h : Isolated layout r now other) :
      Results layout r (.ok now) (.ok other)

theorem paint (h : Isolated layout r now other) {f g : Frame leds}
    (frame : ∀ index, layout.onRow r index = false → f.get? index = g.get? index) :
    Isolated layout r (now.paint f) (other.paint g) := { h with frame }

theorem setColor (h : Isolated layout r now other) {index : Nat} {x y : Color}
    (hxy : x = y ∨ layout.onRow r index = true) :
    Results layout r (now.call (.setColor index x)) (other.call (.setColor index y)) := by
  rcases Nat.lt_or_ge index leds with inside | outside
  · have painted : now.canvas.frame.set index x = _ := Frame.set_of_lt x inside
    have painted' : other.canvas.frame.set index y = _ := Frame.set_of_lt y inside
    rw [Controller.call, Controller.call, painted, painted']
    refine .done (h.paint fun k hk => ?_)
    rw [Frame.get?_of_set painted, Frame.get?_of_set painted']
    split
    · rename_i here
      obtain rfl : x = y := hxy.resolve_right (by simp [← here, hk])
      rfl
    · exact h.frame k hk
  · rw [Controller.call, Controller.call, Frame.set_of_le x outside, Frame.set_of_le y outside]
    exact .refused _

theorem post (h : Isolated layout r now other) (command : Command) :
    Results layout r (now.post command) (other.post command) := by
  cases hq : now.mailbox.queue.push? command with
  | none =>
    rw [post_of_none hq, post_of_none (h.queue ▸ hq)]
    exact .refused _
  | some longer =>
    rw [post_of_some hq, post_of_some (h.queue ▸ hq)]
    exact .done { h with queue := rfl }

theorem flush (h : Isolated layout r now other) : Isolated layout r now.flush other.flush := by
  have drawn : now.flush.mailbox.published.SameBut r other.flush.mailbox.published := by
    have left : now.canvas.layout = layout := h.layouts.1
    have right : other.canvas.layout = layout := h.layouts.2
    simp only [Controller.flush, Mailbox.publish, left, right, ← h.curve]
    exact .encode _ _ _ h.frame
  exact { h with published := drawn, waiting := rfl }

theorem call (h : Isolated layout r now other) {a b : Call} (hab : a.Alike layout r b) :
    Results layout r (now.call a) (other.call b) := by
  cases hab with
  | recolored x y onRow => exact h.setColor (.inr onRow)
  | same =>
    cases a with
    | setColor index color => exact h.setColor (.inl rfl)
    | fill color => exact .done (h.paint fun _ _ => rfl)
    | flush => exact .done h.flush
    | setGain gain => exact h.post _
    | setOutput on => exact h.post _

theorem Results.reply {left right : Except Fault (Controller leds rows cols)}
    (h : Results layout r left right) : left.map (fun _ => ()) = right.map (fun _ => ()) := by
  cases h <;> rfl

theorem Results.run {a b : Call} (h : Isolated layout r now other)
    (hab : Results layout r (now.call a) (other.call b)) :
    Isolated layout r (now.run [.call a]).1 (other.run [.call b]).1 := by
  generalize ha : now.call a = left at hab
  generalize hb : other.call b = right at hab
  cases hab with
  | refused fault =>
    rw [run_of_error ha, run_of_error hb]
    exact h
  | done after =>
    rw [run_of_ok ha, run_of_ok hb]
    exact after

/-! ### Runs -/

variable {a b : Action} {s t : List Action}

theorem steps (h : Isolated layout r now other) (n : Nat) :
    Isolated layout r (now.steps n).1 (other.steps n).1 := by
  induction n generalizing now other with
  | zero => exact h
  | succ n ih => exact ih h.step

theorem act (h : Isolated layout r now other) (hab : a.Alike layout r b) :
    Isolated layout r (now.run [a]).1 (other.run [b]).1 := by
  cases hab with
  | call calls => exact (h.call calls).run h
  | step =>
    rw [run_step_fst, run_step_fst]
    exact h.step
  | tick =>
    rw [run_tick, run_tick, tick_eq_steps, tick_eq_steps, h.phase]
    exact h.steps _
  | drive _ _ | present _ => exact h

theorem run (h : Isolated layout r now other) (hst : List.Forall₂ (Action.Alike layout r) s t) :
    Isolated layout r (now.run s).1 (other.run t).1 := by
  induction hst generalizing now other with
  | nil => exact h
  | @cons a b s t hab _ ih =>
    rw [run_cons now, run_cons other]
    exact ih (h.act hab)

theorem replies (h : Isolated layout r now other)
    (hst : List.Forall₂ (Action.Alike layout r) s t) : now.replies s = other.replies t := by
  induction hst generalizing now other with
  | nil => rfl
  | @cons a b s t hab _ ih =>
    have rest := ih (h.act hab)
    cases hab with
    | call calls =>
      rw [Controller.replies, Controller.replies, rest]
      exact congrArg (· :: _) (h.call calls).reply
    | step | tick | drive _ _ | present _ => exact rest

theorem pieces (h : Isolated layout r now other) (hab : a.Alike layout r b) :
    List.Forall₂ (Action.Alike layout r) (now.pieces a) (other.pieces b) := by
  cases hab with
  | call calls => exact .cons (.call calls) .nil
  | step | drive _ _ | present _ => exact Action.Alike.refl_all layout r _
  | tick =>
    rw [Controller.pieces, Controller.pieces, h.phase]
    exact Action.Alike.refl_all layout r _

theorem cut (h : Isolated layout r now other) (hst : List.Forall₂ (Action.Alike layout r) s t) :
    List.Forall₂ (Action.Alike layout r) (now.cut s) (other.cut t) := by
  induction hst generalizing now other with
  | nil => exact .nil
  | cons hab _ ih => exact List.rel_append (h.pieces hab) (ih (h.act hab))

end Isolated

end Controller

/-! ## What is sent meanwhile -/

/-- A signal with the levels of the data lines left out. -/
def Signal.shape : Signal → Signal
  | .drive (.data p) _ => .drive (.data p) .low
  | .present _ => .present 0
  | s => s

theorem Wiring.shape_carry (wiring : Wiring) (s : Signal) :
    (wiring.carry s).map Signal.shape = (wiring.carry s.shape).map Signal.shape := by
  cases s with
  | drive line level =>
    cases line with
    | data p => cases wiring <;> rfl
    | clock | latch | outputEnable | row _ => rfl
  | present word => cases wiring <;> rfl
  | timerPeriod _ | timerOn => rfl

/-- Traces of one shape have one shape on the board. -/
theorem Wiring.shape_carryAll (wiring : Wiring) {s t : Trace}
    (h : s.map Signal.shape = t.map Signal.shape) :
    (wiring.carryAll s).map Signal.shape = (wiring.carryAll t).map Signal.shape := by
  have carried (trace : Trace) : (wiring.carryAll trace).map Signal.shape =
      (wiring.carryAll (trace.map Signal.shape)).map Signal.shape := by
    rw [Wiring.carryAll, Wiring.carryAll, List.map_flatMap, List.map_flatMap, List.flatMap_map]
    exact congrArg (trace.flatMap ·) (funext wiring.shape_carry)
  rw [carried s, carried t, h]

/-- Every column is sent by a burst of the same shape. -/
theorem Burst.shape_columns (columns : List Planes) :
    (columns.flatMap fun planes => (Burst.column planes).signals).map Signal.shape =
      (List.replicate columns.length ((Burst.column .dark).signals.map Signal.shape)).flatten := by
  have cycle (planes : Planes) (i : Fin 16) : ((Burst.column planes).cycle i).map Signal.shape =
      ((Burst.column .dark).cycle i).map Signal.shape := by
    simp [Burst.cycle, Burst.column, Signal.shape]
  induction columns with
  | nil => rfl
  | cons planes columns ih =>
    rw [List.flatMap_cons, List.map_append, ih, List.length_cons, List.replicate_succ,
      List.flatten_cons]
    simp only [Burst.signals, List.map_append, List.map_flatMap, cycle]

/-- How a row is sent does not depend on what it shows. -/
theorem Instruction.shape_shift (x y : Row cols) :
    (Instruction.shift x).signals.map Signal.shape =
      (Instruction.shift y).signals.map Signal.shape := by
  simp only [Instruction.signals, List.map_append, Burst.shape_columns, List.length_reverse,
    Vector.length_toList]

/-- A step sends the same, except perhaps for the words of the row. -/
theorem Controller.Isolated.sent {now other : Controller leds rows cols} {layout : Layout leds}
    (h : Isolated layout r now other) :
    now.step.2 = other.step.2 ∨
      (now.phase = .transfer ∧ now.row.val = r) ∧
        (now.step.2.flatMap Instruction.signals).map Signal.shape =
          (other.step.2.flatMap Instruction.signals).map Signal.shape := by
  have row : now.scanner.row = other.scanner.row := h.row
  have phase : other.phase = now.phase := h.phase.symm
  unfold Controller.step
  rw [phase]
  cases hp : now.phase with
  | idle => simp [h.queue]
  | latch | reset => simp
  | select => simp [Scanner.line, row]
  | transfer =>
    by_cases hr : now.row.val = r
    · refine .inr ⟨⟨rfl, hr⟩, ?_⟩
      simp only [List.flatMap_cons, List.map_append]
      rw [Instruction.shape_shift now.scanner.current other.scanner.current]
    · have same : now.scanner.active[now.scanner.row.val]? =
          other.scanner.active[now.scanner.row.val]? := h.active _ hr
      have current : now.scanner.current = other.scanner.current := by
        rw [row] at same
        simpa [Scanner.current, row] using same
      rw [current]
      exact .inl rfl

namespace Moment

/-- The step that sends a row. -/
def sends (r : Nat) (m : Moment leds rows cols) : Bool :=
  m.runs .transfer ∧ m.before.row.val = r

/-- The same action, except perhaps for the color of an LED on the row, on controllers
that differ in that row. -/
structure Alike (layout : Layout leds) (r : Nat) (m m' : Moment leds rows cols) : Prop where
  before : Controller.Isolated layout r m.before m'.before
  action : m.action.Alike layout r m'.action
  /-- A tick is many moments. -/
  single : m.action ≠ .tick

namespace Alike

variable {layout : Layout leds} {m m' : Moment leds rows cols}

/-- Only the words that send the row may differ. -/
theorem trace (h : m.Alike layout r m') :
    m.trace = m'.trace ∨
      m.sends r = true ∧ m'.sends r = true ∧
        m.trace.map Signal.shape = m'.trace.map Signal.shape := by
  obtain ⟨now, a⟩ := m
  obtain ⟨other, b⟩ := m'
  obtain ⟨before, action, single⟩ := h
  dsimp only at before action single
  cases action with
  | tick => exact absurd rfl single
  | drive _ _ | present _ => exact .inl rfl
  | call _ =>
    left
    rw [Controller.trace_of_isCall rfl, Controller.trace_of_isCall rfl]
  | step =>
    have sent := Controller.trace_step now
    have sent' := Controller.trace_step other
    rcases before.sent with same | ⟨⟨hp, hr⟩, shapes⟩
    · left
      rw [sent, sent', same]
    · refine .inr ⟨?_, ?_, ?_⟩
      · simp [sends, runs, hp, hr]
      · simp [sends, runs, ← before.phase, ← before.row, hp, hr]
      · rw [sent, sent']
        exact shapes

end Alike

end Moment

namespace Event

/-- Whether the step that sends a row caused it. -/
def sends (r : Nat) (e : Event leds rows cols) : Bool := e.cause.any (Moment.sends r)

/-- The same signal, except perhaps for the level of a data line while the row is sent. -/
def Alike (r : Nat) (e e' : Event leds rows cols) : Prop :=
  e.signal = e'.signal ∨
    e.sends r = true ∧ e'.sends r = true ∧ e.signal.shape = e'.signal.shape

end Event

theorem Moment.Alike.events {layout : Layout leds} {m m' : Moment leds rows cols}
    (h : m.Alike layout r m') (wiring : Wiring) :
    List.Forall₂ (Event.Alike r) (m.events wiring) (m'.events wiring) := by
  rw [Moment.events, Moment.events, List.forall₂_map_left_iff, List.forall₂_map_right_iff]
  rcases h.trace with same | ⟨sends, sends', shapes⟩
  · rw [same]
    exact List.forall₂_same.mpr fun _ _ => .inl rfl
  · have carried := wiring.shape_carryAll shapes
    rw [← List.forall₂_eq_eq_eq, List.forall₂_map_left_iff, List.forall₂_map_right_iff] at carried
    exact carried.imp fun _ _ shape => .inr ⟨sends, sends', shape⟩

namespace Controller

variable {now other : Controller leds rows cols} {layout : Layout leds} {s t : List Action}

theorem Isolated.momentsOf (h : Isolated layout r now other)
    (hst : List.Forall₂ (Action.Alike layout r) s t) (single : ∀ a ∈ s, a ≠ .tick) :
    List.Forall₂ (Moment.Alike layout r) (now.momentsOf s) (other.momentsOf t) := by
  induction hst generalizing now other with
  | nil => exact .nil
  | @cons a b s t hab _ ih =>
    refine .cons ⟨h, hab, single a List.mem_cons_self⟩ (ih (h.act hab) ?_)
    exact fun a ha => single a (List.mem_cons_of_mem _ ha)

theorem Isolated.history (h : Isolated layout r now other)
    (hst : List.Forall₂ (Action.Alike layout r) s t) :
    List.Forall₂ (Moment.Alike layout r) (now.history s) (other.history t) :=
  h.momentsOf (h.cut hst) fun _ ha => (mem_cut ha).1

theorem Isolated.events {wiring : Wiring} (h : Isolated layout r now other)
    (hst : List.Forall₂ (Action.Alike layout r) s t) (start : Trace) :
    List.Forall₂ (Event.Alike r) (eventsOf wiring start (now.history s))
      (eventsOf wiring start (other.history t)) := by
  refine List.rel_append (List.forall₂_same.mpr fun _ _ => .inl rfl) ?_
  exact List.rel_flatMap (h.history hst) fun _ _ moments => moments.events wiring

variable {timebase : Timebase} {config : Config} {banks : Banks rows cols}
  {c : Controller leds rows cols} {t : Trace} {actions repainted : List Action}

/-- One row does not show in another. Of two runs that differ only in the colors that LEDs on
row `r` are painted, all other rows are the same after every action, and so are the replies
and, one by one, the signals, up to the levels of data lines while row `r` is sent. -/
theorem rows_isolated (h : start timebase config layout banks = .ok (c, t))
    (alike : List.Forall₂ (Action.Alike layout r) actions repainted) (wiring : Wiring) :
    (∀ n,
      let now := (c.run (actions.take n)).1
      let other := (c.run (repainted.take n)).1
      (∀ q, q ≠ r → now.active[q]? = other.active[q]?) ∧
        (∀ index, layout.onRow r index = false → now.frame.get? index = other.frame.get? index) ∧
        now.phase = other.phase ∧ now.row = other.row ∧ now.isPending = other.isPending ∧
        now.layout = other.layout) ∧
      c.replies actions = c.replies repainted ∧
      List.Forall₂ (Event.Alike r) (eventsOf wiring t (c.history actions))
        (eventsOf wiring t (c.history repainted)) ∧
      ∀ s, (eventsOf wiring t (c.history s)).map Event.signal =
        wiring.carryAll t ++ wiring.carryAll (c.run s).2 := by
  obtain ⟨_, _, _, rfl, _⟩ := eq_fresh_of_start h
  have fresh : Isolated layout r _ _ := .refl r (fresh config layout banks ‹_›)
  refine ⟨fun n => ?_, fresh.replies alike, fresh.events alike t,
    signals_eventsOf_history wiring t _⟩
  have after := fresh.run (List.forall₂_take n alike)
  have pending := congrArg₂ or after.waiting after.firstScan
  exact ⟨after.active, after.frame, after.phase, after.row, pending,
    after.layouts.1.trans after.layouts.2.symm⟩

/-- An LED on the first row painted red in one run and blue in the other: the words
that send the row differ, the second row and all replies do not. -/
theorem rows_isolated_recolored :
    let painted (color : Color) : List Action :=
      .call (.setColor 0 color) :: .call (.setColor 1 .off) :: .call .flush ::
        List.replicate 5 .step
    let red := painted ⟨255, 0, 0⟩
    let blue := painted ⟨0, 0, 255⟩
    let board (actions : List Action) : Trace :=
      Wiring.direct.carryAll (startTrace 2 1 {} ⟨556⟩) ++
        Wiring.direct.carryAll (twoRows.run actions).2
    (twoRows.run red).1.active[1]? = (twoRows.run blue).1.active[1]? ∧
      (twoRows.run red).1.active[0]? ≠ (twoRows.run blue).1.active[0]? ∧
      twoRows.replies red = [.ok (), .error (.indexOutOfRange 1 1), .ok ()] ∧
      twoRows.replies red = twoRows.replies blue ∧
      board red ≠ board blue ∧ (board red).length = (board blue).length := by
  intro painted red blue board
  have alike : List.Forall₂ (Action.Alike #v[⟨0, 0⟩] 0) red blue :=
    .cons (.call (.recolored _ _ rfl)) (Action.Alike.refl_all _ _ _)
  obtain ⟨states, replies, events, signals⟩ := rows_isolated start_twoRows alike .direct
  obtain ⟨active, -⟩ := states 8
  have lengths : (board red).length = (board blue).length := by
    have same := events.length_eq
    rwa [← List.length_map Event.signal, signals red, ← List.length_map Event.signal,
      signals blue] at same
  exact ⟨active 1 (by decide), by decide +kernel, by decide, replies,
    by decide +kernel, lengths⟩

end Controller

end LedMatrix

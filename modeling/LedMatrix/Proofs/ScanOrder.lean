import LedMatrix.Proofs.LitRow
import Mathlib.Order.Interval.Finset.Nat

/-! # Rows are lit in turn

Every tick that ends lights one row and moves the cursor on by one. So the cursor
counts the rows that were lit, modulo the number of rows, and the rows come up in
order however the ticks are cut and whatever the application does between their
steps. -/

namespace LedMatrix

variable {leds rows cols : Nat}

/-- The phases that a tick has yet to run, the current one first. -/
def Phase.remaining : Phase → List Phase
  | .idle => [.idle, .transfer, .latch, .reset, .select]
  | .transfer => [.transfer, .latch, .reset, .select]
  | .latch => [.latch, .reset, .select]
  | .reset => [.reset, .select]
  | .select => [.select]

theorem Phase.length_remaining (phase : Phase) : phase.remaining.length = phase.left := by
  cases phase <;> rfl

theorem Phase.remaining_next {phase : Phase} (h : phase ≠ .select) :
    phase.remaining = phase :: phase.next.remaining := by
  cases phase with
  | select => exact absurd rfl h
  | idle | transfer | latch | reset => rfl

/-! ## Raised rows -/

def Signal.raisedRow? : Signal → Option Nat
  | .drive (.row n) .high => some n.toNat
  | _ => none

/-- The rows whose lines a trace raises, in order. -/
def Trace.raisedRows (trace : Trace) : List Nat := trace.filterMap Signal.raisedRow?

theorem Trace.raisedRows_append (s t : Trace) :
    Trace.raisedRows (s ++ t) = Trace.raisedRows s ++ Trace.raisedRows t :=
  List.filterMap_append

theorem Trace.raisedRows_eq_nil {trace : Trace} (h : ∀ n, .drive (.row n) .high ∉ trace) :
    Trace.raisedRows trace = [] := by
  rw [raisedRows, List.filterMap_eq_nil_iff]
  intro s hs
  unfold Signal.raisedRow?
  split
  · exact absurd hs (h _)
  · rfl

/-- Any `rows` consecutive turns of a cycle of `rows` take each of them once. -/
theorem perm_range_of_window {turns i : Nat} (h : i + rows ≤ turns) :
    ((((List.range turns).map (· % rows)).drop i).take rows).Perm (List.range rows) := by
  have window : ((List.range turns).drop i).take rows = List.range' i rows := by
    obtain ⟨later, rfl⟩ := Nat.exists_eq_add_of_le h
    rw [List.range_eq_range', List.drop_range', Nat.zero_add, Nat.mul_one,
      show i + rows + later - i = rows + later by omega, ← List.range'_append_1,
      List.take_left' List.length_range']
  have cycle := Nat.multiset_Ico_map_mod i rows
  rw [Multiset.Ico, Nat.Ico_eq_range', Nat.add_sub_cancel_left] at cycle
  rw [← List.map_drop, ← List.map_take, window]
  exact Multiset.coe_eq_coe.mp cycle

namespace Controller

variable {past : List (Moment leds rows cols)} {now : Controller leds rows cols}

/-! ## One tick -/

theorem phase_tick (now : Controller leds rows cols) : now.tick.1.phase = .idle := by
  fun_induction tick now with
  | case1 now ends => exact ends
  | case2 now continues rest ih => exact ih

theorem action_of_replicate {n : Nat} {m : Moment leds rows cols}
    (h : m ∈ now.momentsOf (List.replicate n .step)) : m.action = .step :=
  List.eq_of_mem_replicate (mem_momentsOf h)

/-- The steps of a tick run the phases that remain of it. -/
theorem phases_of_pieces (now : Controller leds rows cols) :
    (now.momentsOf (List.replicate now.phase.left .step)).map (·.before.phase) =
      now.phase.remaining := by
  generalize hn : now.phase.left = n
  induction n generalizing now with
  | zero =>
    rw [← Phase.length_remaining, List.length_eq_zero_iff] at hn
    exact hn.symm
  | succ n ih =>
    rw [List.replicate_succ, momentsOf, List.map_cons, run_step]
    by_cases hs : now.phase = .select
    · have last : n = 0 := by
        rw [hs] at hn
        exact (Nat.succ.inj hn).symm
      subst last
      rw [hs]
      rfl
    · rw [Phase.remaining_next hs]
      have left := Phase.left_next hs
      have next : (emit now.step).1.phase = now.phase.next := now.phase_step
      rw [ih (emit now.step).1 (by rw [next]; omega), next]

theorem history_tick_eq (now : Controller leds rows cols) :
    now.history [.tick] = now.momentsOf (List.replicate now.phase.left .step) := by
  rw [history_cons]
  exact List.append_nil _

theorem history_tick (now : Controller leds rows cols) :
    (now.history [.tick]).map (fun m => (m.action, m.before.phase)) =
      now.phase.remaining.map (Action.step, ·) := by
  rw [history_tick_eq, ← phases_of_pieces, List.map_map]
  apply List.map_congr_left
  intro m hm
  rw [Function.comp_apply, action_of_replicate hm]

/-! ## Counting the rows -/

/-- How many rows were lit. -/
def turnsOf (past : List (Moment leds rows cols)) : Nat := past.countP (Moment.runs .select)

/-- The cursor and the rows that were raised follow from the number of turns. -/
structure InTurn (past : List (Moment leds rows cols)) (now : Controller leds rows cols) :
    Prop where
  row : now.row.val = turnsOf past % rows
  raised : Trace.raisedRows (past.flatMap Moment.trace) = (List.range (turnsOf past)).map (· % rows)

variable {next : Controller leds rows cols} {m : Moment leds rows cols}

theorem turnsOf_select (past : List (Moment leds rows cols)) (hm : m.runs .select = true) :
    turnsOf (past ++ [m]) = turnsOf past + 1 := by
  simp [turnsOf, hm]

theorem turnsOf_other (past : List (Moment leds rows cols)) (hm : m.runs .select = false) :
    turnsOf (past ++ [m]) = turnsOf past := by
  simp [turnsOf, hm]

theorem raisedRows_concat (past : List (Moment leds rows cols)) (m : Moment leds rows cols) :
    Trace.raisedRows ((past ++ [m]).flatMap Moment.trace) =
      Trace.raisedRows (past.flatMap Moment.trace) ++ Trace.raisedRows m.trace := by
  rw [List.flatMap_append, Trace.raisedRows_append, List.flatMap_singleton]

theorem trace_of_select (hm : m.runs .select = true) :
    m.trace = [.drive (.row m.before.scanner.line) .high] := by
  obtain ⟨now, rfl, hp⟩ := Moment.exists_of_runs hm
  exact trace_select hp

theorem InTurn.keep (h : InTurn past m.before) (hm : m.runs .select = false)
    (quiet : ∀ n, .drive (.row n) .high ∉ m.trace) (row : next.row = m.before.row) :
    InTurn (past ++ [m]) next := by
  have turns := turnsOf_other past hm
  refine ⟨?_, ?_⟩
  · rw [row, turns]
    exact h.row
  · rw [raisedRows_concat, Trace.raisedRows_eq_nil quiet, List.append_nil, turns]
    exact h.raised

/-- A turn raises the line of the cursor's row, and the cursor moves on. -/
theorem InTurn.lit (h : InTurn past m.before) (hm : m.runs .select = true) :
    InTurn (past ++ [m]) m.before.endTick := by
  have turns := turnsOf_select past hm
  refine ⟨?_, ?_⟩
  · have cursor : m.before.endTick.row.val = (m.before.row.val + 1) % rows := rfl
    rw [cursor, turns, h.row, Nat.mod_add_mod]
  · have line : Trace.raisedRows m.trace = [turnsOf past % rows] := by
      rw [trace_of_select hm, ← h.row, ← m.before.toNat_line]
      rfl
    rw [raisedRows_concat, line, h.raised, turns, List.range_succ, List.map_append]
    rfl

theorem keeps_inTurn {actions : List Action} (hdirect : ∀ a ∈ actions, a.isDirect = false) :
    Keeps actions fun past (now : Controller leds rows cols) => InTurn past now := by
  refine keeps_of_step_call hdirect ?_ ?_
  · intro past now h
    by_cases hp : now.phase = .select
    · have lights := h.lit (m := .ofStep now) (by simp [Moment.runs, hp])
      rwa [← step_select hp] at lights
    · exact h.keep (m := .ofStep now) (by simp [Moment.runs, hp]) (not_raised_of_step hp)
        (row_step hp)
  · intro past now call h
    refine h.keep (m := ⟨now, .call call⟩) (by simp [Moment.runs]) ?_ ?_
    · intro n
      rw [trace_of_isCall rfl]
      exact List.not_mem_nil
    · exact congrArg Scanner.row (scanner_run_call now call)

theorem inTurn_fresh (config : Config) (layout : Layout leds) (banks : Banks rows cols)
    (hr : 1 ≤ rows ∧ rows ≤ 256) : InTurn [] (fresh config layout banks hr) :=
  ⟨(Nat.zero_mod rows).symm, rfl⟩

/-! ## The order of a whole run -/

variable {timebase : Timebase} {config : Config} {layout : Layout leds} {banks : Banks rows cols}
  {c : Controller leds rows cols} {t : Trace} {actions : List Action}

/-- Rows are lit in turn. In every run the rows raised since the start are the turns so far,
each modulo the number of rows, by lines whose byte is the row's own number; so any window of
as many turns as there are rows holds every row once. A tick, wherever it was cut, ends idle. -/
theorem rows_lit_in_turn (h : start timebase config layout banks = .ok (c, t))
    (hdirect : ∀ a ∈ actions, a.isDirect = false) :
    let now := (c.run actions).1
    let turns := turnsOf (c.history actions)
    let raised := Trace.raisedRows (c.run actions).2
    (now.run [.tick] = now.run (List.replicate now.phase.remaining.length .step) ∧
        (now.history [.tick]).map (fun m => (m.action, m.before.phase)) =
          now.phase.remaining.map (Action.step, ·) ∧
        (now.run [.tick]).1.phase = .idle) ∧
      (now.row.val = turns % rows ∧ turns % rows < rows) ∧
      raised = (List.range turns).map (· % rows) ∧
      (∀ i, i + rows ≤ turns → ((raised.drop i).take rows).Perm (List.range rows)) ∧
      ∀ m ∈ c.history actions,
        (m.runs .select = true → m.trace = [.drive (.row m.before.scanner.line) .high] ∧
          m.before.scanner.line.toNat = m.before.row.val) ∧
        (m.runs .transfer = true → m.trace = transferTrace m.before.active m.before.row) := by
  intro now turns raised
  have inTurn : InTurn (c.history actions) now := by
    obtain ⟨hr, _, _, rfl, _⟩ := eq_fresh_of_start h
    exact (keeps_inTurn hdirect).run (inTurn_fresh config layout banks hr)
  have raisedInTurn : raised = (List.range turns).map (· % rows) := by
    have all := inTurn.raised
    rwa [trace_history] at all
  refine ⟨⟨?_, history_tick now, ?_⟩, ⟨inTurn.row, ?_⟩, raisedInTurn, ?_, ?_⟩
  · rw [Phase.length_remaining]
    exact (run_pieces now .tick).symm
  · rw [run_tick]
    exact phase_tick now
  · rw [← inTurn.row]
    exact now.row.isLt
  · intro i hi
    rw [raisedInTurn]
    exact perm_range_of_window hi
  · intro m _
    exact ⟨fun hm => ⟨trace_of_select hm, toNat_line m.before⟩, trace_of_transfer⟩

/-- Two rows, with the first tick cut by a flush and finished by a tick: the third
turn is due for the first row again. -/
theorem rows_lit_in_turn_cut :
    let actions : List Action := [.step, .step, .call .flush, .tick, .tick]
    start .microseconds {} #v[⟨0, 0⟩] (.dark : Banks 2 1) =
      .ok (twoRows, startTrace 2 1 {} ⟨556⟩) ∧
      (∀ a ∈ actions, a.isDirect = false) ∧ turnsOf (twoRows.history actions) = 2 ∧
      Trace.raisedRows (twoRows.run actions).2 = [0, 1] ∧
      (twoRows.run actions).1.row.val = 0 := by
  intro actions
  have ordinary : ∀ a ∈ actions, a.isDirect = false := by decide
  obtain ⟨_, ⟨row, _⟩, raised, _, _⟩ := rows_lit_in_turn start_twoRows ordinary
  have turns : turnsOf (twoRows.history actions) = 2 := by decide +kernel
  rw [turns] at row raised
  exact ⟨start_twoRows, ordinary, turns, raised, row⟩

end Controller

end LedMatrix

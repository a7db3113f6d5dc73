import LedMatrix.Proofs.IdleScans

/-! # A frame shows what was painted last

A frame is painted one LED at a time or as a whole. Every LED shows the last stroke that
reached it, and is off until there is one; a stroke that names no LED is refused and
leaves no mark. A controller's frame is painted by two of its calls and by nothing else,
so it shows what they painted last, whatever happens between them. -/

namespace LedMatrix

variable {leds rows cols : Nat}

/-! ## Strokes -/

/-- What paints a frame: a color for one LED, or one for all of them. -/
inductive Stroke where
  | led (index : Nat) (color : Color)
  | all (color : Color)
  deriving DecidableEq, Repr

/-- The color that a stroke gives an LED, if it reaches it. -/
def Stroke.color? (i : Nat) : Stroke → Option Color
  | .led index color => if index = i then some color else none
  | .all color => some color

/-- The fault for which a stroke is refused on a frame of so many LEDs. -/
def Stroke.Fails (leds : Nat) (fault : Fault) : Stroke → Prop
  | .led index _ => leds ≤ index ∧ fault = .indexOutOfRange index leds
  | .all _ => False

/-- The color given by the last of some strokes that reach an LED. -/
def lastColor? (i : Nat) (strokes : List Stroke) : Option Color :=
  strokes.reverse.findSome? (Stroke.color? i)

theorem lastColor?_concat (i : Nat) (strokes : List Stroke) (s : Stroke) :
    lastColor? i (strokes ++ [s]) = (s.color? i).or (lastColor? i strokes) := by
  rw [lastColor?, List.reverse_append, List.findSome?_append, List.reverse_singleton,
    List.findSome?_singleton, lastColor?]

namespace Frame

variable {frame next : Frame leds} {past : List Stroke} {s : Stroke}

def stroke (frame : Frame leds) : Stroke → Except Fault (Frame leds)
  | .led index color => frame.set index color
  | .all color => .ok (frame.fill color)

/-- Puts strokes down in order, passing over those that are refused, and lists the others. -/
def paintAll (frame : Frame leds) : List Stroke → Frame leds × List Stroke
  | [] => (frame, [])
  | s :: rest =>
    match frame.stroke s with
    | .ok next =>
      let after := next.paintAll rest
      (after.1, s :: after.2)
    | .error _ => frame.paintAll rest

/-- Every LED has the color of the last of some strokes that reach it, and is off if none does. -/
def Shows (frame : Frame leds) (strokes : List Stroke) : Prop :=
  ∀ i, frame.get? i = if i < leds then some ((lastColor? i strokes).getD .off) else none

theorem stroke_eq_error_iff {fault : Fault} :
    frame.stroke s = .error fault ↔ s.Fails leds fault := by
  cases s with
  | all color => exact ⟨nofun, False.elim⟩
  | led index color =>
    rw [Stroke.Fails, stroke]
    by_cases h : index < leds
    · rw [set_of_lt color h]
      exact ⟨nofun, fun fails => absurd h (Nat.not_lt.mpr fails.1)⟩
    · have outside : leds ≤ index := Nat.not_lt.mp h
      rw [set_of_le color outside, Except.error.injEq, and_iff_right outside]
      exact eq_comm

/-- A stroke gives the LEDs that it reaches its color and leaves the others. -/
theorem get?_of_stroke (h : frame.stroke s = .ok next) {i : Nat} (hi : i < leds) :
    next.get? i = (s.color? i).or (frame.get? i) := by
  cases s with
  | all color =>
    cases h
    rw [get?_fill hi]
    rfl
  | led index color =>
    rw [get?_of_set h, Stroke.color?]
    by_cases here : i = index
    · rw [if_pos here, if_pos here.symm, Option.some_or]
    · rw [if_neg here, if_neg (Ne.symm here), Option.none_or]

theorem shows_dark : (dark : Frame leds).Shows [] := by
  intro i
  split <;> rename_i hi
  · exact get?_dark hi
  · exact get?_eq_none_iff.mpr (Nat.not_lt.mp hi)

theorem Shows.stroke (h : frame.Shows past) (put : frame.stroke s = .ok next) :
    next.Shows (past ++ [s]) := by
  intro i
  split <;> rename_i hi
  · rw [get?_of_stroke put hi, h i, if_pos hi, lastColor?_concat]
    cases s.color? i <;> rfl
  · exact get?_eq_none_iff.mpr (Nat.not_lt.mp hi)

/-- Refused strokes leave no mark. -/
theorem Shows.paintAll (h : frame.Shows past) (strokes : List Stroke) :
    (frame.paintAll strokes).1.Shows (past ++ (frame.paintAll strokes).2) := by
  induction strokes generalizing frame past with
  | nil =>
    rw [Frame.paintAll, List.append_nil]
    exact h
  | cons s rest ih =>
    rw [Frame.paintAll]
    split <;> rename_i put
    · have later := ih (h.stroke put)
      rwa [List.append_assoc] at later
    · exact ih h

end Frame

/-! ## The frame of a controller -/

/-- The stroke that a call asks for. -/
def Call.stroke? : Call → Option Stroke
  | .setColor index color => some (.led index color)
  | .fill color => some (.all color)
  | .flush | .setGain _ | .setOutput _ => none

def Action.stroke? : Action → Option Stroke
  | .call asked => asked.stroke?
  | .step | .tick | .drive _ _ | .present _ => none

/-- The stroke that a moment asked for and that was not refused. -/
def Moment.stroke? (m : Moment leds rows cols) : Option Stroke :=
  if (m.before.act m.action).isOk then m.action.stroke? else none

/-- The strokes that were put down, in order. -/
def painted (past : List (Moment leds rows cols)) : List Stroke := past.filterMap Moment.stroke?

theorem painted_concat (past : List (Moment leds rows cols)) (m : Moment leds rows cols) :
    painted (past ++ [m]) = painted past ++ m.stroke?.toList := by
  rw [painted, List.filterMap_append, painted]
  cases h : m.stroke? <;> simp [h]

namespace Controller

variable {now : Controller leds rows cols} {call : Call} {a : Action} {s : Stroke}

/-- A call that paints is a stroke on the controller's frame. -/
theorem call_of_stroke? (h : call.stroke? = some s) :
    now.call call = (now.frame.stroke s).map now.paint := by
  cases call with
  | flush | setGain _ | setOutput _ => cases h
  | setColor _ _ | fill _ =>
    cases h
    rfl

theorem call_eq_error_iff_fails (h : call.stroke? = some s) {fault : Fault} :
    now.call call = .error fault ↔ s.Fails leds fault := by
  have refused : now.frame.stroke s = .error fault ↔ s.Fails leds fault := Frame.stroke_eq_error_iff
  rw [call_of_stroke? h, ← refused]
  cases now.frame.stroke s <;> simp [Except.map]

theorem frame_run_post {command : Command} (h : now.call call = now.post command) :
    (now.run [.call call]).1.frame = now.frame := by
  cases hq : now.mailbox.queue.push? command with
  | none => rw [run_of_error (h.trans (post_of_none hq))]
  | some longer =>
    rw [run_of_ok (h.trans (post_of_some hq))]
    rfl

/-- What asks for no stroke leaves the frame as it is. -/
theorem frame_run_of_stroke?_none (h : a.stroke? = none) : (now.run [a]).1.frame = now.frame := by
  cases a with
  | drive _ _ | present _ => rfl
  | step =>
    rw [run_step]
    exact now.frame_step
  | tick =>
    rw [run_tick]
    exact now.frame_tick
  | call call =>
    cases call with
    | setColor _ _ | fill _ => cases h
    | flush => rfl
    | setGain _ | setOutput _ => exact frame_run_post rfl

theorem stroke?_of_error {fault : Fault} (h : now.call call = .error fault) :
    (⟨now, .call call⟩ : Moment leds rows cols).stroke? = none := by
  simp [Moment.stroke?, act, h, Except.map, Except.isOk, Except.toBool]

theorem stroke?_of_ok {next : Controller leds rows cols} (h : now.call call = .ok next) :
    (⟨now, .call call⟩ : Moment leds rows cols).stroke? = call.stroke? := by
  simp [Moment.stroke?, Action.stroke?, act, h, Except.map, Except.isOk, Except.toBool]

/-- Every moment adds the stroke that it put down, if it put one down. -/
theorem shows_run {past : List (Moment leds rows cols)} (h : now.frame.Shows (painted past))
    (a : Action) : (now.run [a]).1.frame.Shows (painted (past ++ [⟨now, a⟩])) := by
  rw [painted_concat]
  cases asked : a.stroke? with
  | none =>
    have none : (⟨now, a⟩ : Moment leds rows cols).stroke? = none := by simp [Moment.stroke?, asked]
    rw [frame_run_of_stroke?_none asked, none, Option.toList_none, List.append_nil]
    exact h
  | some s =>
    cases a with
    | step | tick | drive _ _ | present _ => cases asked
    | call call =>
      have put : now.call call = (now.frame.stroke s).map now.paint := call_of_stroke? asked
      cases result : now.frame.stroke s with
      | error fault =>
        rw [result, Except.map] at put
        rw [run_of_error put, stroke?_of_error put, Option.toList_none, List.append_nil]
        exact h
      | ok next =>
        rw [result, Except.map] at put
        have asks : call.stroke? = some s := asked
        rw [run_of_ok put, stroke?_of_ok put, asks, Option.toList_some]
        exact h.stroke result

theorem keeps_shows (actions : List Action) :
    Keeps actions fun past (now : Controller leds rows cols) => now.frame.Shows (painted past) :=
  fun _ _ a _ _ h => shows_run h a

end Controller

namespace Frame

/-- A frame is the map of its last painters: every LED shows the last stroke that reached it
and was not refused, and is off if there was none. A stroke is refused exactly if it names an
LED that the frame does not have. All this holds of a controller's frame after every run. -/
theorem last_painter_shows (leds : Nat) :
    (∀ strokes, ((dark : Frame leds).paintAll strokes).1.Shows
        ((dark : Frame leds).paintAll strokes).2) ∧
      (∀ (frame : Frame leds) (s : Stroke) fault,
        frame.stroke s = .error fault ↔ s.Fails leds fault) ∧
      (∀ frame other : Frame leds, frame = other ↔ ∀ i, frame.get? i = other.get? i) ∧
      ∀ rows cols timebase config (layout : Layout leds) (banks : Banks rows cols) c t,
        Controller.start timebase config layout banks = .ok (c, t) → ∀ actions,
          (c.run actions).1.frame.Shows (painted (c.history actions)) ∧
            (∀ call s, call.stroke? = some s → ∀ fault,
              (c.run actions).1.call call = .error fault ↔ s.Fails leds fault) ∧
            ∀ a : Action, a.stroke? = none →
              ((c.run actions).1.run [a]).1.frame = (c.run actions).1.frame := by
  refine ⟨fun strokes => shows_dark.paintAll strokes, fun frame s fault => stroke_eq_error_iff,
    fun frame other => ⟨?_, ext_get?⟩, ?_⟩
  · rintro rfl i
    rfl
  · intro rows cols timebase config layout banks c t h actions
    obtain ⟨_, _, _, rfl, _⟩ := Controller.eq_fresh_of_start h
    refine ⟨(Controller.keeps_shows actions).run shows_dark, fun call s asked fault => ?_,
      fun a asked => Controller.frame_run_of_stroke?_none asked⟩
    exact Controller.call_eq_error_iff_fails asked

/-- One LED is painted red over a gray frame. Setting an LED far beyond the last is refused,
and neither that nor a flush, a step, a queued command or a tick changes what it shows. -/
theorem last_painter_shows_one_led :
    let beyond : Call := .setColor 18446744073709551615 ⟨0, 255, 0⟩
    let actions : List Action := [.call (.fill ⟨9, 9, 9⟩), .call (.setColor 0 ⟨255, 0, 0⟩),
      .call .flush, .step, .call beyond, .call (.setGain 3)]
    let now := (Controller.twoRows.run actions).1
    Controller.start .microseconds {} #v[⟨0, 0⟩] (.dark : Banks 2 1) =
        .ok (Controller.twoRows, Controller.startTrace 2 1 {} ⟨556⟩) ∧
      now.frame.get? 0 = some ⟨255, 0, 0⟩ ∧ now.frame.get? 1 = none ∧
      now.call beyond = .error (.indexOutOfRange 18446744073709551615 1) ∧
      (now.run [.tick]).1.frame = now.frame := by
  intro beyond actions now
  obtain ⟨-, -, -, runs⟩ := last_painter_shows 1
  obtain ⟨shows, refused, kept⟩ := runs 2 1 _ {} _ _ _ _ Controller.start_twoRows actions
  exact ⟨Controller.start_twoRows, (shows 0).trans (by decide), (shows 1).trans (by decide),
    (refused beyond _ rfl _).mpr ⟨by decide, rfl⟩, kept .tick rfl⟩

end Frame

end LedMatrix

import LedMatrix.Bank
import LedMatrix.Curve.Reference
import Mathlib.Data.List.Forall2
import Mathlib.Data.Set.Finite.Basic
import Mathlib.Order.Preorder.Finite

/-! # What a drawn bank shows

Drawing a frame puts the planes of one LED after the other at their places. So a
place of the grid shows the last LED that the layout puts there, and is dark where
the layout puts none; an LED outside the grid and what the bank held before leave
no mark. -/

namespace LedMatrix

variable {leds rows cols : Nat}

/-! ## Cells drawn one after the other -/

/-- Whether a position is the place at a row and a column. -/
def Position.At (p : Position) (row col : Nat) : Prop := p.row.toNat = row ∧ p.col.toNat = col

instance (p : Position) (row col : Nat) : Decidable (p.At row col) :=
  inferInstanceAs (Decidable (_ ∧ _))

namespace Bank

variable {bank : Bank rows cols} {position : Position}

theorem put_of_not_within (h : ¬position.Within rows cols) (planes : Planes) :
    bank.put position planes = bank := by
  refine Bank.ext_planes? fun row col => ?_
  rw [planes?_put, if_neg fun here => h here.2.2]

/-- A cell that is drawn elsewhere leaves a place as it is. -/
theorem planes?_draw_of_not_at {cells : List (Position × Planes)} {row col : Nat}
    (h : ∀ cell ∈ cells, ¬cell.1.At row col) :
    (bank.draw cells).planes? row col = bank.planes? row col := by
  induction cells generalizing bank with
  | nil => rfl
  | cons cell cells ih =>
    have first : ¬(row = cell.1.row.toNat ∧ col = cell.1.col.toNat ∧ cell.1.Within rows cols) :=
      fun here => h cell List.mem_cons_self ⟨here.1.symm, here.2.1.symm⟩
    show ((bank.put cell.1 cell.2).draw cells).planes? row col = _
    rw [ih fun later hl => h later (List.mem_cons_of_mem _ hl), planes?_put, if_neg first]

/-- Of the cells that are drawn at a place the last one shows. -/
theorem planes?_draw_last {older newer : List (Position × Planes)} {planes : Planes}
    {row col : Nat} (at_ : position.At row col) (within : position.Within rows cols)
    (h : ∀ cell ∈ newer, ¬cell.1.At row col) :
    (bank.draw (older ++ (position, planes) :: newer)).planes? row col = some planes := by
  rw [draw_append]
  show (((bank.draw older).put position planes).draw newer).planes? row col = _
  rw [planes?_draw_of_not_at h, planes?_put, if_pos ⟨at_.1.symm, at_.2.symm, within⟩]

/-- Cells that differ outside the grid only are drawn alike. -/
theorem draw_congr {s t : List (Position × Planes)}
    (h : List.Forall₂ (fun x y => x = y ∨ ¬x.1.Within rows cols ∧ ¬y.1.Within rows cols) s t) :
    bank.draw s = bank.draw t := by
  induction h generalizing bank with
  | nil => rfl
  | @cons x y s t hxy _ ih =>
    have same : bank.put x.1 x.2 = bank.put y.1 y.2 := by
      rcases hxy with rfl | ⟨hx, hy⟩
      · rfl
      · rw [put_of_not_within hx, put_of_not_within hy]
    show (bank.put x.1 x.2).draw s = (bank.put y.1 y.2).draw t
    rw [same, ih]

end Bank

/-! ## The cells of a frame -/

/-- The last LED that a layout puts at a row and a column. -/
structure Layout.LastAt (layout : Layout leds) (row col : Nat) (led : Fin leds) : Prop where
  here : (layout.get led).At row col
  last : ∀ later, led < later → ¬(layout.get later).At row col

theorem Layout.LastAt.unique {layout : Layout leds} {row col : Nat} {led other : Fin leds}
    (h : layout.LastAt row col led) (h' : layout.LastAt row col other) : led = other := by
  rcases lt_trichotomy led other with before | same | after
  · exact absurd h'.here (h.last other before)
  · exact same
  · exact absurd h.here (h'.last led after)

/-- A place has a last LED, or none at all. -/
theorem Layout.lastAt_or_empty (layout : Layout leds) (row col : Nat) :
    (∃ led, layout.LastAt row col led) ∨ ∀ led, ¬(layout.get led).At row col := by
  by_cases some : {led | (layout.get led).At row col}.Nonempty
  · obtain ⟨led, here, greatest⟩ := (Set.toFinite _).exists_maximal some
    exact .inl ⟨led, here, fun later hl there => absurd (greatest there hl.le) (not_le.mpr hl)⟩
  · exact .inr fun led here => some ⟨led, here⟩

namespace Bank

variable (old : Bank rows cols) (frame : Frame leds) (layout : Layout leds) (curve : Curve)

/-- A place shows the last LED that the layout puts there. -/
theorem planes?_encode_of_lastAt {row col : Nat} {led : Fin leds}
    (h : layout.LastAt row col led) (hr : row < rows) (hc : col < cols) :
    (old.encode frame layout curve).planes? row col =
      some (planesOf curve (frame.colors.get led)) := by
  obtain ⟨older, newer, split⟩ := List.append_of_mem (List.mem_finRange led)
  have sorted := List.pairwise_lt_finRange leds
  rw [split, List.pairwise_append, List.pairwise_cons] at sorted
  obtain ⟨-, ⟨later, -⟩, -⟩ := sorted
  rw [encode, cells, split, List.map_append, List.map_cons]
  refine planes?_draw_last h.here ⟨h.here.1 ▸ hr, h.here.2 ▸ hc⟩ fun cell hcell => ?_
  obtain ⟨k, hk, rfl⟩ := List.mem_map.mp hcell
  exact h.last k (later k hk)

/-- A place without an LED is dark. -/
theorem planes?_encode_of_empty {row col : Nat} (h : ∀ led, ¬(layout.get led).At row col)
    (hr : row < rows) (hc : col < cols) :
    (old.encode frame layout curve).planes? row col = some .dark := by
  rw [encode, clear_eq_dark, planes?_draw_of_not_at, planes?_dark hr hc]
  intro cell hcell
  obtain ⟨led, -, rfl⟩ := List.mem_map.mp hcell
  exact h led

/-- LEDs outside the grid leave no mark, wherever they are and whatever they show. -/
theorem encode_congr {repainted : Frame leds} {moved : Layout leds}
    (h : ∀ led, moved.get led = layout.get led ∧ repainted.colors.get led = frame.colors.get led ∨
      ¬(moved.get led).Within rows cols ∧ ¬(layout.get led).Within rows cols) :
    old.encode repainted moved curve = old.encode frame layout curve := by
  refine draw_congr ?_
  rw [cells, cells, List.forall₂_map_left_iff, List.forall₂_map_right_iff, List.forall₂_same]
  intro led _
  rcases h led with ⟨place, color⟩ | outside
  · exact .inl (Prod.ext place (congrArg (planesOf curve) color))
  · exact .inr outside

end Bank

/-! ## Words -/

/-- The word that a plane of three counts is sent as: each primary's bit at its own
place, and nothing else. -/
structure Word.Spells (word : Word) (counts : Primary → UInt16) (plane : Nat) : Prop where
  red : word.toBitVec.getLsbD 14 = (counts .red).toBitVec.getLsbD (15 - plane)
  green : word.toBitVec.getLsbD 13 = (counts .green).toBitVec.getLsbD (15 - plane)
  blue : word.toBitVec.getLsbD 12 = (counts .blue).toBitVec.getLsbD (15 - plane)
  rest : ∀ bit, bit ≠ 14 → bit ≠ 13 → bit ≠ 12 → word.toBitVec.getLsbD bit = false

theorem Planes.spells_pack (counts : Primary → UInt16) {plane : Nat} (h : plane < 16) :
    ((pack counts)[plane]).Spells counts plane := by
  rw [getElem_pack counts h]
  refine ⟨?_, ?_, ?_, fun bit red green blue => ?_⟩ <;> rw [Word.getLsbD_ofBits]
  · simp [Primary.all, Primary.place]
  · simp [Primary.all, Primary.place]
  · simp [Primary.all, Primary.place]
  · simp [Primary.all, Primary.place, red.symm, green.symm, blue.symm]

namespace Bank

variable (old : Bank rows cols) (frame : Frame leds) (layout : Layout leds) (curve : Curve)

theorem word?_of_planes? {bank : Bank rows cols} {planes : Planes} {row col plane : Nat}
    (hr : row < rows) (hp : plane < 16) (h : bank.planes? row col = some planes) :
    bank[row].word? col plane = some planes[plane] := by
  have channel : bank[row].channel? col = some planes := by simpa [planes?, hr] using h
  rw [Row.word?, channel]
  simp [hp]

/-- What a drawn bank sends, word by word. At every place of the grid, and on every
plane: if some LED is there, the word spells the counts of the last one, the greatest by
number; if none is, the word is zero. What the bank held before makes no difference, nor
do the LEDs outside the grid. -/
theorem encode_word_by_word :
    (∀ row (hr : row < rows) col plane, col < cols → plane < 16 →
      ∃ word, (old.encode frame layout curve)[row].word? col plane = some word ∧
        ((∃ led, layout.LastAt row col led ∧
            word.Spells (fun p => curve.count ((frame.colors.get led).intensity p)) plane) ∨
          (∀ led, ¬(layout.get led).At row col) ∧ word = 0)) ∧
      (∀ other : Bank rows cols,
        other.encode frame layout curve = old.encode frame layout curve) ∧
      ∀ (repainted : Frame leds) (moved : Layout leds),
        (∀ led,
          moved.get led = layout.get led ∧ repainted.colors.get led = frame.colors.get led ∨
            ¬(moved.get led).Within rows cols ∧ ¬(layout.get led).Within rows cols) →
        old.encode repainted moved curve = old.encode frame layout curve := by
  refine ⟨fun row hr col plane hc hp => ?_, fun other => ?_, fun repainted moved => ?_⟩
  · rcases layout.lastAt_or_empty row col with ⟨led, last⟩ | empty
    · have shown := planes?_encode_of_lastAt old frame layout curve last hr hc
      exact ⟨_, word?_of_planes? hr hp shown, .inl ⟨led, last, Planes.spells_pack _ hp⟩⟩
    · have dark := planes?_encode_of_empty old frame layout curve empty hr hc
      refine ⟨_, word?_of_planes? hr hp dark, .inr ⟨empty, ?_⟩⟩
      exact Vector.getElem_replicate hp
  · rw [encode_eq_encode_dark other, encode_eq_encode_dark old]
  · exact encode_congr old frame layout curve

/-- Two LEDs share the first place of a row of two, and a third is far outside: the
second LED shows, and what was drawn on the second place before is gone. -/
theorem encode_word_by_word_collision :
    let layout : Layout 3 := #v[⟨0, 0⟩, ⟨0, 0⟩, ⟨7, 1⟩]
    let frame : Frame 3 := ⟨#v[⟨255, 0, 0⟩, ⟨0, 0, 255⟩, ⟨9, 9, 9⟩]⟩
    let moved : Layout 3 := #v[⟨0, 0⟩, ⟨0, 0⟩, ⟨0, 200⟩]
    let old : Bank 1 2 := Bank.dark.put ⟨0, 1⟩ (.pack fun _ => 0xffff)
    let drawn := old.encode frame layout .reference
    layout.LastAt 0 0 1 ∧
      (∃ word, drawn[0].word? 0 2 = some word ∧ word.carries .red = false ∧
        word.carries .blue = true) ∧
      old[0].word? 1 2 ≠ some 0 ∧ drawn[0].word? 1 2 = some 0 ∧
      old.encode frame moved .reference = drawn := by
  intro layout frame moved old drawn
  obtain ⟨words, -, outside⟩ := encode_word_by_word old frame layout .reference
  have last : layout.LastAt 0 0 1 := ⟨by decide, by decide⟩
  have nowhere : ∀ led, ¬(layout.get led).At 0 1 := by decide
  refine ⟨last, ?_, by decide, ?_, outside frame moved (by decide)⟩
  · obtain ⟨word, sent, ⟨led, here, spells⟩ | ⟨empty, -⟩⟩ :=
      words 0 Nat.one_pos 0 2 (by omega) (by omega)
    · obtain rfl : led = 1 := here.unique last
      exact ⟨word, sent, spells.red.trans (by decide), spells.blue.trans (by decide)⟩
    · exact absurd last.here (empty 1)
  · obtain ⟨word, sent, ⟨led, here, -⟩ | ⟨-, rfl⟩⟩ :=
      words 0 Nat.one_pos 1 2 (by omega) (by omega)
    · exact absurd here.here (nowhere led)
    · exact sent

end Bank

end LedMatrix

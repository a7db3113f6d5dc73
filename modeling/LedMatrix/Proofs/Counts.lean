import LedMatrix.Bank
import LedMatrix.Curve.Reference

/-! # Rows are their counts

The planes of a channel and the counts that they spell determine each other, as long as
no plane has a bit outside the data mask. Drawing sets no such bit, so a drawn row is no
more than the counts that can be read back from it. -/

namespace LedMatrix

variable {leds rows cols : Nat}

/-! ## Bits as shifts -/

/-- A bit, shifted down to the low end of its word. -/
theorem Word.shiftRight_and_one (word : Word) {i : Nat} (h : i < 16) :
    (word >>> UInt16.ofNat i) &&& 1 = if word.toBitVec.getLsbD i then 1 else 0 := by
  have shifted : (word >>> UInt16.ofNat i).toBitVec = word.toBitVec >>> i := by
    rw [UInt16.toBitVec_shiftRight, BitVec.ushiftRight_eq', BitVec.toNat_umod]
    congr 1
    simp
    omega
  apply UInt16.toBitVec_inj.mp
  apply BitVec.eq_of_getLsbD_eq
  intro k _
  have one : (1 : UInt16).toBitVec.getLsbD k = decide (k = 0) := by
    rw [show (1 : UInt16).toBitVec = 1#16 from rfl, BitVec.getLsbD_one]
    simp
  rw [UInt16.toBitVec_and, BitVec.getLsbD_and, shifted, BitVec.getLsbD_ushiftRight, one]
  by_cases low : k = 0
  · subst low
    cases word.toBitVec.getLsbD i <;> simp
  · cases word.toBitVec.getLsbD i <;> simp [low]

theorem Word.ofBits_eq_shifts (chosen : Primary → Bool) :
    ofBits chosen =
      (if chosen .red then 1 else 0 : Word) <<< 14 |||
        (if chosen .green then 1 else 0 : Word) <<< 13 |||
        (if chosen .blue then 1 else 0 : Word) <<< 12 := by
  simp only [ofBits, Primary.all, List.foldl]
  cases chosen .red <;> cases chosen .green <;> cases chosen .blue <;> rfl

namespace Planes

/-- A plane takes one bit of every count, shifted to its primary's place. -/
theorem pack_eq_shifts (counts : Primary → UInt16) {i : Nat} (h : i < 16) :
    (pack counts)[i] =
      (counts .red >>> UInt16.ofNat (15 - i) &&& 1) <<< 14 |||
        (counts .green >>> UInt16.ofNat (15 - i) &&& 1) <<< 13 |||
        (counts .blue >>> UInt16.ofNat (15 - i) &&& 1) <<< 12 := by
  have place : 15 - i < 16 := by omega
  rw [getElem_pack counts h, Word.ofBits_eq_shifts, Word.shiftRight_and_one _ place,
    Word.shiftRight_and_one _ place, Word.shiftRight_and_one _ place]

/-- Planes that some counts were packed into. -/
def Packed (planes : Planes) : Prop := ∃ counts, planes = pack counts

theorem packed_dark : dark.Packed := by
  exact ⟨fun _ => 0, by decide⟩

theorem Packed.eq_of_value {planes other : Planes} (h : planes.Packed) (h' : other.Packed)
    (same : ∀ p, planes.value p = other.value p) : planes = other := by
  obtain ⟨counts, rfl⟩ := h
  obtain ⟨others, rfl⟩ := h'
  have : counts = others := funext fun p => by rw [← value_pack counts, same, value_pack]
  rw [this]

end Planes

/-! ## Packed rows -/

namespace Row

/-- A row all of whose channels are packed. -/
def Packed (row : Row cols) : Prop :=
  ∀ col planes, row.channel? col = some planes → planes.Packed

variable {row other : Row cols}

theorem packed_dark : (dark : Row cols).Packed := by
  intro col planes channel
  rcases Nat.lt_or_ge col cols with inside | outside
  · rw [channel?_dark inside] at channel
    cases channel
    exact Planes.packed_dark
  · rw [channel?_eq_none_iff.mpr outside] at channel
    cases channel

theorem Packed.put (h : row.Packed) (col : Nat) {planes : Planes} (packed : planes.Packed) :
    (row.put col planes).Packed := by
  intro k shown channel
  rw [channel?_put] at channel
  split at channel
  · cases channel
    exact packed
  · exact h k shown channel

/-- A column shows counts exactly if it is in the row, and then those that its planes spell. -/
theorem count?_of_channel? {col : Nat} {planes : Planes} (h : row.channel? col = some planes)
    (p : Primary) : row.count? col p = some (planes.value p) := by
  rw [count?, h, Option.map_some]

theorem count?_of_outside {col : Nat} (h : cols ≤ col) (p : Primary) : row.count? col p = none := by
  rw [count?, channel?_eq_none_iff.mpr h, Option.map_none]

theorem exists_channel? (row : Row cols) {col : Nat} (h : col < cols) :
    ∃ planes, row.channel? col = some planes :=
  ⟨row.channels.get ⟨col, h⟩, Vector.getElem?_eq_getElem h⟩

theorem Packed.eq_of_count? (h : row.Packed) (h' : other.Packed)
    (same : ∀ col p, row.count? col p = other.count? col p) : row = other := by
  refine ext_channel? fun col => ?_
  rcases Nat.lt_or_ge col cols with inside | outside
  · obtain ⟨planes, channel⟩ := row.exists_channel? inside
    obtain ⟨others, channel'⟩ := other.exists_channel? inside
    have values : ∀ p, planes.value p = others.value p := by
      intro p
      have counts := same col p
      rw [count?_of_channel? channel, count?_of_channel? channel'] at counts
      exact Option.some.inj counts
    rw [channel, channel', (h col planes channel).eq_of_value (h' col others channel') values]
  · rw [channel?_eq_none_iff.mpr outside, channel?_eq_none_iff.mpr outside]

theorem count?_dark {col : Nat} (h : col < cols) (p : Primary) :
    (dark : Row cols).count? col p = some 0 := by
  rw [count?_of_channel? (channel?_dark h)]
  cases p <;> rfl

end Row

/-! ## Drawn rows -/

namespace Bank

theorem packed_dark : ∀ row ∈ (dark : Bank rows cols), row.Packed := by
  intro row hrow
  rw [Vector.eq_of_mem_replicate hrow]
  exact Row.packed_dark

theorem packed_put {bank : Bank rows cols} (h : ∀ row ∈ bank, row.Packed) {position : Position}
    {planes : Planes} (packed : planes.Packed) : ∀ row ∈ bank.put position planes, row.Packed := by
  intro row hrow
  unfold put at hrow
  split at hrow
  · rename_i inside
    rcases Vector.mem_or_eq_of_mem_set hrow with old | rfl
    · exact h row old
    · exact (h _ (Vector.getElem_mem inside)).put _ packed
  · exact h row hrow

/-- Drawing packs what it writes. -/
theorem packed_draw {bank : Bank rows cols} {cells : List (Position × Planes)}
    (h : ∀ row ∈ bank, row.Packed) (packed : ∀ cell ∈ cells, cell.2.Packed) :
    ∀ row ∈ bank.draw cells, row.Packed := by
  induction cells generalizing bank with
  | nil => exact h
  | cons cell rest ih =>
    exact ih (packed_put h (packed cell List.mem_cons_self)) fun later hl =>
      packed later (List.mem_cons_of_mem cell hl)

theorem packed_encode (old : Bank rows cols) (frame : Frame leds) (layout : Layout leds)
    (curve : Curve) : ∀ row ∈ old.encode frame layout curve, row.Packed := by
  rw [encode, clear_eq_dark]
  refine packed_draw packed_dark fun cell hcell => ?_
  obtain ⟨led, -, rfl⟩ := List.mem_map.mp hcell
  exact ⟨_, rfl⟩

end Bank

namespace Row

/-- A row of a bank that some frame was drawn into. -/
def Drawn (row : Row cols) : Prop :=
  ∃ (leds rows : Nat) (old : Bank rows cols) (frame : Frame leds) (layout : Layout leds)
    (curve : Curve), row ∈ old.encode frame layout curve

theorem Drawn.packed {row : Row cols} (h : row.Drawn) : row.Packed := by
  obtain ⟨leds, rows, old, frame, layout, curve, drawn⟩ := h
  exact Bank.packed_encode old frame layout curve row drawn

/-- Planes and counts are inverse. A column that holds packed counts reads them back on
every primary; packing what is read from any planes gives these planes without the bits
outside the data mask. So drawn rows, whatever was drawn, are equal exactly if all that
is read from them is, and a drawn row is dark exactly if all that is read from it is zero. -/
theorem counts_determine_drawn_rows :
    (∀ (row : Row cols) col counts, row.channel? col = some (.pack counts) →
        ∀ p, row.count? col p = some (counts p)) ∧
      (∀ (row : Row cols) col planes, row.channel? col = some planes →
        ∃ counts, (∀ p, row.count? col p = some (counts p)) ∧
          Planes.pack counts = planes.masked) ∧
      (∀ row other : Row cols, row.Drawn → other.Drawn →
        (row = other ↔ ∀ col p, row.count? col p = other.count? col p)) ∧
      ∀ row : Row cols, row.Drawn →
        (row = .dark ↔ ∀ col < cols, ∀ p, row.count? col p = some 0) := by
  refine ⟨fun row col counts channel p => ?_, fun row col planes channel => ?_,
    fun row other h h' => ⟨?_, h.packed.eq_of_count? h'.packed⟩, fun row h => ⟨?_, fun zero => ?_⟩⟩
  · rw [count?_of_channel? channel, Planes.value_pack]
  · exact ⟨planes.value, count?_of_channel? channel, Planes.pack_value planes⟩
  · rintro rfl col p
    rfl
  · rintro rfl col inside p
    exact count?_dark inside p
  · refine h.packed.eq_of_count? packed_dark fun col p => ?_
    rcases Nat.lt_or_ge col cols with inside | outside
    · rw [zero col inside p, count?_dark inside]
    · rw [count?_of_outside outside, count?_of_outside outside]

/-- One LED in a row of two columns, drawn red and then black: its counts tell the red
row from the black one, and show that nothing is left of the red. -/
theorem counts_determine_drawn_rows_one_led :
    let red : Bank 1 2 := Bank.dark.encode ⟨#v[⟨255, 0, 0⟩]⟩ #v[⟨0, 1⟩] .reference
    let black : Bank 1 2 := red.encode ⟨#v[.off]⟩ #v[⟨0, 1⟩] .reference
    (red.get 0).Drawn ∧ (black.get 0).Drawn ∧
      (∀ p, (red.get 0).count? 1 p = some (Curve.reference.count (Color.intensity ⟨255, 0, 0⟩ p))) ∧
      red.get 0 ≠ black.get 0 ∧ black.get 0 = .dark := by
  intro red black
  obtain ⟨reads, _, same, empty⟩ := @counts_determine_drawn_rows 2
  have drawnRed : (red.get 0).Drawn := ⟨_, _, _, _, _, _, Vector.getElem_mem Nat.one_pos⟩
  have drawnBlack : (black.get 0).Drawn := ⟨_, _, _, _, _, _, Vector.getElem_mem Nat.one_pos⟩
  have shown := reads (red.get 0) 1
    (fun p => Curve.reference.count (Color.intensity ⟨255, 0, 0⟩ p)) (by decide +kernel)
  have zero (p : Primary) : ∀ col < 2, (black.get 0).count? col p = some 0 := by
    cases p <;> decide +kernel
  have dark : black.get 0 = .dark :=
    (empty (black.get 0) drawnBlack).mpr fun col inside p => zero p col inside
  refine ⟨drawnRed, drawnBlack, shown, fun equal => ?_, dark⟩
  have counts := (same (red.get 0) (black.get 0) drawnRed drawnBlack).mp equal 1 .red
  exact absurd counts (by decide +kernel)

end Row

end LedMatrix

import LedMatrix.Proofs.Counts
import Mathlib.Data.List.Induction

/-! # The views of a row

A row is read by column, by word, as one list of words and as counts. All of them show
one storage: a word has the same value wherever it is read, and none is read outside the
row. Counts show less than words do, since a word may have bits that belong to no primary;
but a bank that was only ever redrawn and cleared has none, and then the counts spell
every word. -/

namespace LedMatrix

variable {rows cols : Nat}

namespace Row

variable {row other : Row cols} {col plane : Nat} {planes : Planes}

/-! ## Words by place -/

theorem word?_of_channel? (h : row.channel? col = some planes) :
    row.word? col plane = planes[plane]? := by
  rw [word?, h, Option.bind_some]

/-- There is a word exactly at the places inside the row. -/
theorem exists_word?_iff : (∃ word, row.word? col plane = some word) ↔ col < cols ∧ plane < 16 := by
  rcases Nat.lt_or_ge col cols with inside | outside
  · obtain ⟨planes, channel⟩ := row.exists_channel? inside
    rw [word?_of_channel? channel]
    simp [inside, Vector.getElem?_eq_some_iff]
  · rw [word?, channel?_eq_none_iff.mpr outside]
    simp [Nat.not_lt.mpr outside]

theorem count?_eq_none_iff {p : Primary} : row.count? col p = none ↔ cols ≤ col := by
  rw [count?, Option.map_eq_none_iff, channel?_eq_none_iff]

/-! ## The words as one list -/

theorem words_eq_flatten (row : Row cols) : row.words = row.channels.flatten.toList := by
  obtain ⟨⟨channels, size⟩⟩ := row
  rw [words, Vector.flatten_mk, Vector.toList_mk, Vector.toList_mk, Array.toList_flatten,
    Array.toList_map, List.map_map, List.flatMap_def]
  rfl

theorem length_words (row : Row cols) : row.words.length = 16 * cols := by
  rw [words_eq_flatten, Vector.length_toList, Nat.mul_comm]

theorem eq_iff_words_eq : row = other ↔ row.words = other.words := by
  obtain ⟨channels⟩ := row
  obtain ⟨others⟩ := other
  rw [words_eq_flatten, words_eq_flatten, Vector.toList_inj, ← Vector.eq_iff_flatten_eq, mk.injEq]

/-- The list holds sixteen words for each column. -/
theorem getElem?_words (row : Row cols) (hc : col < cols) (hp : plane < 16) :
    row.words[16 * col + plane]? = row.word? col plane := by
  have inside : 16 * col + plane < cols * 16 := by omega
  have column : (16 * col + plane) / 16 = col := by omega
  have offset : (16 * col + plane) % 16 = plane := by omega
  rw [words_eq_flatten, Vector.getElem?_toList, Vector.getElem?_flatten, dif_pos inside]
  simp [word?, channel?, hc, hp, column, offset]

/-! ## Words and counts -/

/-- The counts that are read from a packed column spell all of its words. -/
theorem Packed.spells (h : row.Packed) (channel : row.channel? col = some planes) :
    ∃ counts : Primary → UInt16, (∀ p, row.count? col p = some (counts p)) ∧
      ∀ plane word, planes[plane]? = some word →
        word = (counts .red >>> UInt16.ofNat (15 - plane) &&& 1) <<< 14 |||
          (counts .green >>> UInt16.ofNat (15 - plane) &&& 1) <<< 13 |||
          (counts .blue >>> UInt16.ofNat (15 - plane) &&& 1) <<< 12 := by
  obtain ⟨counts, rfl⟩ := h col planes channel
  refine ⟨counts, fun p => ?_, fun plane word sent => ?_⟩
  · rw [count?_of_channel? channel, Planes.value_pack]
  · obtain ⟨inside, rfl⟩ := Vector.getElem?_eq_some_iff.mp sent
    exact Planes.pack_eq_shifts counts inside

end Row

/-! ## Banks that are redrawn and cleared -/

namespace Bank

/-- What is done to a bank: a frame of any size is drawn into it, or a row of it is cleared. -/
inductive Edit (rows : Nat) where
  | redraw {leds : Nat} (frame : Frame leds) (layout : Layout leds) (curve : Curve)
  | clear (row : Fin rows)

def edit (bank : Bank rows cols) : Edit rows → Bank rows cols
  | .redraw frame layout curve => bank.encode frame layout curve
  | .clear row => bank.set row.val (bank.get row).clear row.isLt

/-- A new bank after some edits, the first one first. -/
def edited (edits : List (Edit rows)) : Bank rows cols := edits.foldl edit dark

theorem packed_edit {bank : Bank rows cols} (h : ∀ row ∈ bank, row.Packed) (e : Edit rows) :
    ∀ row ∈ bank.edit e, row.Packed := by
  intro row hrow
  cases e with
  | redraw frame layout curve => exact packed_encode bank frame layout curve row hrow
  | clear cleared =>
    rw [edit] at hrow
    rcases Vector.mem_or_eq_of_mem_set hrow with old | rfl
    · exact h row old
    · exact Row.packed_dark

theorem packed_edited (edits : List (Edit rows)) :
    ∀ row ∈ (edited edits : Bank rows cols), row.Packed := by
  induction edits using List.reverseRecOn with
  | nil => exact packed_dark
  | append_singleton edits e ih =>
    rw [edited, List.foldl_append]
    exact packed_edit ih e

end Bank

namespace Row

/-- All views of a row agree, whatever was drawn into its bank and however often its rows
were cleared: the counts of a column, the word on each of its planes and the word at its
place among all words. Rows are equal exactly if all their words are. -/
theorem views_agree {edits : List (Bank.Edit rows)} {row : Row cols}
    (made : row ∈ (Bank.edited edits : Bank rows cols)) :
    (∀ col, (row.channel? col = none ↔ cols ≤ col) ∧ ∀ p, row.count? col p = none ↔ cols ≤ col) ∧
      (∀ col plane, (∃ word, row.word? col plane = some word) ↔ col < cols ∧ plane < 16) ∧
      (∀ col plane word, row.word? col plane = some word →
        (∃ planes, row.channel? col = some planes ∧ planes[plane]? = some word) ∧
          row.words[16 * col + plane]? = some word ∧
          ∃ counts : Primary → UInt16, (∀ p, row.count? col p = some (counts p)) ∧
            word = (counts .red >>> UInt16.ofNat (15 - plane) &&& 1) <<< 14 |||
              (counts .green >>> UInt16.ofNat (15 - plane) &&& 1) <<< 13 |||
              (counts .blue >>> UInt16.ofNat (15 - plane) &&& 1) <<< 12) ∧
      row.words.length = 16 * cols ∧
      ∀ other : Row cols, row = other ↔ row.words = other.words := by
  refine ⟨fun col => ⟨channel?_eq_none_iff, fun p => count?_eq_none_iff⟩,
    fun col plane => exists_word?_iff, fun col plane word sent => ?_, length_words row,
    fun other => eq_iff_words_eq⟩
  obtain ⟨inColumn, inPlanes⟩ := exists_word?_iff.mp ⟨word, sent⟩
  obtain ⟨planes, channel⟩ := row.exists_channel? inColumn
  have here : planes[plane]? = some word := (word?_of_channel? channel).symm.trans sent
  -- of all the views only the counts depend on what was done to the bank
  obtain ⟨counts, read, spelled⟩ := (Bank.packed_edited edits row made).spells channel
  exact ⟨⟨planes, channel, here⟩, (getElem?_words row inColumn inPlanes).trans sent,
    counts, read, spelled plane word here⟩

/-- A row of two columns is drawn red, cleared, and drawn again with a dim green in its last
column: that green has one bit, on the tenth plane, where every view shows it. -/
theorem views_agree_redrawn :
    let edits : List (Bank.Edit 1) :=
      [.redraw ⟨#v[⟨255, 0, 0⟩]⟩ #v[⟨0, 0⟩] .reference, .clear 0,
        .redraw ⟨#v[⟨0, 9, 0⟩]⟩ #v[⟨0, 1⟩] .reference]
    let row := (Bank.edited edits : Bank 1 2).get 0
    row ∈ (Bank.edited edits : Bank 1 2) ∧ row.word? 1 9 = some 0x2000 ∧
      row.words[25]? = some 0x2000 ∧ row.words.length = 32 ∧
      row.count? 1 .green = some 64 ∧ row.channel? 2 = none ∧ row ≠ .dark := by
  intro edits row
  have made : row ∈ (Bank.edited edits : Bank 1 2) := Vector.getElem_mem Nat.one_pos
  obtain ⟨outside, -, sent, length, equal⟩ := views_agree made
  have bit : row.word? 1 9 = some 0x2000 := by decide +kernel
  obtain ⟨-, listed, -⟩ := sent 1 9 0x2000 bit
  refine ⟨made, bit, listed, length, by decide +kernel, (outside 2).1.mpr (by decide),
    fun dark => ?_⟩
  have same := (equal .dark).mp dark
  rw [same] at listed
  exact absurd listed (by decide)

end Row

end LedMatrix

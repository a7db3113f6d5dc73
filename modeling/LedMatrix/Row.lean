import LedMatrix.Planes

/-! # Rows

A row holds the planes of every column that one row line powers. The same
storage is seen by column, by word, flattened, and as counts read back. -/

namespace LedMatrix

structure Row (cols : Nat) where
  channels : Vector Planes cols
  deriving DecidableEq

namespace Row

variable {cols : Nat}

def dark : Row cols := ⟨Vector.replicate cols Planes.dark⟩

/-- The row with every column turned dark. -/
def clear (_ : Row cols) : Row cols := dark

def channel? (row : Row cols) (col : Nat) : Option Planes := row.channels[col]?

/-- The word sent for a column on one plane. -/
def word? (row : Row cols) (col plane : Nat) : Option Word :=
  (row.channel? col).bind (·[plane]?)

/-- All words, the first column first. -/
def words (row : Row cols) : List Word := row.channels.toList.flatMap Vector.toList

/-- The count that a column shows on one primary. -/
def count? (row : Row cols) (col : Nat) (p : Primary) : Option UInt16 :=
  (row.channel? col).map (·.value p)

/-- Replaces the planes of a column; a column outside the row is skipped. -/
def put (row : Row cols) (col : Nat) (planes : Planes) : Row cols :=
  ⟨row.channels.setIfInBounds col planes⟩

theorem ext_channel? {r s : Row cols} (h : ∀ col, r.channel? col = s.channel? col) : r = s := by
  have : r.channels = s.channels :=
    Vector.ext fun i hi => by simpa [channel?, hi] using h i
  cases r; cases s; cases this; rfl

@[simp] theorem channel?_eq_none_iff {row : Row cols} {col : Nat} :
    row.channel? col = none ↔ cols ≤ col := by
  simp [channel?]

theorem channel?_dark {col : Nat} (h : col < cols) :
    (dark : Row cols).channel? col = some Planes.dark := by
  simp [channel?, dark, h]

theorem channel?_put {row : Row cols} {col : Nat} {planes : Planes} (k : Nat) :
    (row.put col planes).channel? k =
      if k = col ∧ col < cols then some planes else row.channel? k := by
  simp only [channel?, put, Vector.getElem?_setIfInBounds]
  by_cases h : k = col
  · subst h
    by_cases hk : k < cols <;> simp [hk]
  · simp [h, Ne.symm h]

end Row

end LedMatrix

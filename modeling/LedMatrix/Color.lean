/-! # Colors and the words that carry them

A color has an intensity for each of three primaries. On the wire every primary
owns one bit of a serial word, so that three chip chains are fed by one store.
Reading a primary back from a word gives the bit that was put there. -/

namespace LedMatrix

inductive Primary where
  | red | green | blue
  deriving DecidableEq, Repr

/-- The order in which data lines are driven. -/
def Primary.all : List Primary := [.red, .green, .blue]

theorem Primary.mem_all (p : Primary) : p ∈ Primary.all := by
  cases p <;> decide

/-- What one LED shows: an intensity for each primary. -/
structure Color where
  red : UInt8
  green : UInt8
  blue : UInt8
  deriving DecidableEq, Repr

namespace Color

def off : Color := ⟨0, 0, 0⟩

def intensity (c : Color) : Primary → UInt8
  | .red => c.red
  | .green => c.green
  | .blue => c.blue

end Color

/-- What the data lines can carry on one clock. -/
abbrev Word := UInt16

/-- The place of a primary's bit in a word, counted from the low end. -/
def Primary.place : Primary → Nat
  | .red => 14
  | .green => 13
  | .blue => 12

def Primary.mask (p : Primary) : Word := 1 <<< UInt16.ofNat p.place

namespace Word

/-- The places that belong to some primary; no other bit reaches a line. -/
def dataMask : Word := Primary.all.foldl (fun word p => word ||| p.mask) 0

/-- Whether a primary's bit is set. -/
def carries (word : Word) (p : Primary) : Bool := word.toBitVec.getLsbD p.place

/-- The word in which exactly the chosen primaries are set. -/
def ofBits (chosen : Primary → Bool) : Word :=
  Primary.all.foldl (fun word p => if chosen p then word ||| p.mask else word) 0

/-- A chosen primary sets the bit at its place, and nothing else is set. -/
theorem getLsbD_ofBits (chosen : Primary → Bool) (i : Nat) :
    (ofBits chosen).toBitVec.getLsbD i = Primary.all.any fun p => chosen p && p.place == i := by
  by_cases hi : i < 16
  · cases hr : chosen .red <;> cases hg : chosen .green <;> cases hb : chosen .blue <;>
      simp only [ofBits, Primary.all, List.foldl, List.any_cons, List.any_nil, hr, hg, hb] <;>
      revert i <;> decide
  · have hp : ∀ p : Primary, (p.place == i) = false := by
      intro p
      have : p.place ≤ 14 := by cases p <;> decide
      simp only [beq_eq_false_iff_ne]; omega
    rw [BitVec.getLsbD_of_ge _ _ (by omega)]
    simp [Primary.all, hp]

@[simp] theorem carries_ofBits (chosen : Primary → Bool) (p : Primary) :
    (ofBits chosen).carries p = chosen p := by
  unfold carries
  rw [getLsbD_ofBits]
  cases p <;> simp [Primary.all, Primary.place]

theorem getLsbD_dataMask (i : Nat) :
    dataMask.toBitVec.getLsbD i = Primary.all.any fun p => p.place == i :=
  (getLsbD_ofBits (fun _ => true) i).trans (by simp)

/-- Packing what a word carries drops the bits outside the mask. -/
theorem ofBits_carries (word : Word) : ofBits word.carries = word &&& dataMask := by
  apply UInt16.toBitVec_inj.mp
  apply BitVec.eq_of_getLsbD_eq
  intro i _
  rw [UInt16.toBitVec_and, BitVec.getLsbD_and, getLsbD_ofBits, getLsbD_dataMask]
  have here : ∀ p : Primary, (word.carries p && p.place == i) =
      (word.toBitVec.getLsbD i && p.place == i) := by
    intro p
    by_cases h : p.place = i
    · subst h; simp [carries]
    · simp [beq_eq_false_iff_ne.mpr h]
  simp [Primary.all, here, Bool.and_or_distrib_left]

end Word

end LedMatrix

import LedMatrix.Curve.Reference
import Mathlib.Data.List.Chain
import Mathlib.Order.Bounds.Basic

/-! # Accepted tables

A table is walked once. It is refused if its first entry is lit, or as soon as an entry is
below the one before it. Neighbours in order put every two entries in order, so a curve that
was accepted starts dark, never falls, ends at its greatest count, and would be accepted
again. -/

namespace LedMatrix.Curve

/-! ## Walking a table -/

/-- Walks on from an entry, and stops at the first that is below the one before it. -/
def climbs : UInt16 → List UInt16 → Bool
  | _, [] => true
  | before, count :: rest => if count < before then false else climbs count rest

/-- Walks a table from its first entry, which has to be dark. -/
def walk : List UInt16 → Bool
  | [] => true
  | first :: rest => if first ≠ 0 then false else climbs first rest

theorem climbs_iff {before : UInt16} {rest : List UInt16} :
    climbs before rest = true ↔ List.IsChain (· ≤ ·) (before :: rest) := by
  induction rest generalizing before with
  | nil => simp [climbs]
  | cons count rest ih =>
    rw [climbs, List.isChain_cons_cons]
    by_cases drop : count < before
    · simp [drop]
    · rw [if_neg drop, ih, and_iff_right (UInt16.not_lt.mp drop)]

/-- The walk finds exactly the tables that are dark at the start and in which no entry is below
its neighbour. -/
theorem walk_iff_rising {counts : Vector UInt16 256} :
    walk counts.toList = true ↔ Rising counts := by
  have length : counts.toList.length = 256 := Vector.length_toList
  obtain ⟨first, rest, split⟩ := List.exists_cons_of_length_eq_add_one length
  have start : counts[0] = first := by
    rw [← Vector.getElem_toList (by omega)]
    simp [split]
  have chain : climbs first rest = true ↔ ∀ i : Fin 255, counts[i.val] ≤ counts[i.val + 1] := by
    rw [climbs_iff, ← split, List.isChain_iff_getElem]
    refine ⟨fun h i => ?_, fun h i hi => ?_⟩
    · have neighbours := h i.val (by omega)
      rwa [Vector.getElem_toList, Vector.getElem_toList] at neighbours
    · simpa only [Vector.getElem_toList] using h ⟨i, by omega⟩
  rw [split, walk, Rising, start, ← chain]
  by_cases lit : first = 0 <;> simp [lit]

theorem ofCounts?_eq_walk (counts : Vector UInt16 256) :
    ofCounts? counts = if walk counts.toList then some ⟨counts⟩ else none := by
  unfold ofCounts?
  simp only [walk_iff_rising]

/-! ## The order of a curve -/

section Order

variable {counts : Vector UInt16 256} {c : Curve}

theorem rising_iff_ordered :
    Rising counts ↔
      counts.get 0 = 0 ∧ ∀ a b : Fin 256, a ≤ b → counts.get a ≤ counts.get b := by
  refine ⟨fun h => ⟨h.1, fun a b hab => h.getElem_le hab b.isLt⟩, fun h => ⟨h.1, fun i => ?_⟩⟩
  exact h.2 ⟨i.val, by omega⟩ ⟨i.val + 1, by omega⟩ (Nat.le_succ i.val)

theorem Rising.count_zero (h : Rising c.counts) : c.count 0 = 0 := h.1

/-- A brighter intensity never has a smaller count. -/
theorem Rising.count_le (h : Rising c.counts) {i j : UInt8} (hij : i ≤ j) :
    c.count i ≤ c.count j :=
  (rising_iff_ordered.mp h).2 i.toFin j.toFin hij

theorem Rising.count_le_peak (h : Rising c.counts) (i : UInt8) : c.count i ≤ c.peak :=
  h.count_le (UInt8.le_iff_toNat_le.mpr (Nat.le_of_lt_succ i.toNat_lt))

/-- A rising curve ends at its greatest count. -/
theorem Rising.isGreatest_peak (h : Rising c.counts) :
    IsGreatest {count | ∃ i : Fin 256, c.counts.get i = count} c.peak := by
  refine ⟨⟨255, rfl⟩, ?_⟩
  rintro count ⟨i, rfl⟩
  exact (rising_iff_ordered.mp h).2 i 255 (Nat.le_of_lt_succ i.isLt)

/-- The curves that a panel may be given are rising. -/
theorem rising_of_accepted (h : c = reference ∨ ∃ counts, ofCounts? counts = some c) :
    Rising c.counts := by
  rcases h with rfl | ⟨counts, accepted⟩
  · exact rising_reference
  · obtain ⟨rising, same⟩ := ofCounts?_eq_some_iff.mp accepted
    rwa [same]

end Order

/-- Which tables are accepted, and as what: exactly those that are dark at zero and nowhere
fall. An accepted curve holds the entries that were given, its peak is the greatest of them,
and its own table is accepted again as the same curve. -/
theorem accepted_iff_ordered :
    (∀ counts : Vector UInt16 256,
      (ofCounts? counts = if walk counts.toList then some ⟨counts⟩ else none) ∧
      ((∃ c, ofCounts? counts = some c) ↔
        counts.get 0 = 0 ∧ ∀ a b : Fin 256, a ≤ b → counts.get a ≤ counts.get b) ∧
      ∀ c, ofCounts? counts = some c →
        (∀ i : UInt8, c.count i = counts.get i.toFin) ∧ c.counts = counts ∧
          IsGreatest {count | ∃ i : Fin 256, counts.get i = count} c.peak ∧
          ofCounts? c.counts = some c) ∧
      ofCounts? reference.counts = some reference := by
  refine ⟨fun counts => ⟨ofCounts?_eq_walk counts, ?_, fun c accepted => ?_⟩, ?_⟩
  · rw [← rising_iff_ordered]
    exact ⟨fun ⟨c, accepted⟩ => (ofCounts?_eq_some_iff.mp accepted).1, fun rising =>
      ⟨⟨counts⟩, ofCounts?_eq_some_iff.mpr ⟨rising, rfl⟩⟩⟩
  · obtain ⟨rising, rfl⟩ := ofCounts?_eq_some_iff.mp accepted
    exact ⟨fun i => rfl, rfl, Rising.isGreatest_peak rising, accepted⟩
  · exact ofCounts?_eq_some_iff.mpr ⟨rising_reference, rfl⟩

/-- A straight line is accepted and ends at its greatest count; the same line with a drop at
its very last entry is refused. -/
theorem accepted_iff_ordered_line :
    let line : Vector UInt16 256 := Vector.ofFn fun i => 64 * UInt16.ofNat i.val
    let bent : Vector UInt16 256 := Vector.ofFn fun i =>
      if i.val < 255 then 64 * UInt16.ofNat i.val else 0
    ofCounts? line = some ⟨line⟩ ∧ (Curve.mk line).count 128 = 8192 ∧
      (∀ i : Fin 256, line.get i ≤ (Curve.mk line).peak) ∧ ¬∃ c, ofCounts? bent = some c := by
  intro line bent
  obtain ⟨tables, -⟩ := accepted_iff_ordered
  have entry (i : Fin 256) : line.get i = 64 * UInt16.ofNat i.val := Vector.getElem_ofFn i.isLt
  have rising : Rising line := by
    refine rising_iff_ordered.mpr ⟨entry 0, fun a b hab => ?_⟩
    have hab' : a.val ≤ b.val := hab
    rw [entry, entry, UInt16.le_iff_toNat_le, UInt16.toNat_mul, UInt16.toNat_mul]
    simp only [UInt16.toNat_ofNat', UInt16.reduceToNat]
    omega
  have accepted : ofCounts? line = some ⟨line⟩ := ofCounts?_eq_some_iff.mpr ⟨rising, rfl⟩
  obtain ⟨given, -, greatest, -⟩ := (tables line).2.2 ⟨line⟩ accepted
  refine ⟨accepted, (given 128).trans (entry 128), fun i => greatest.2 ⟨i, rfl⟩, ?_⟩
  rw [(tables bent).2.1]
  rintro ⟨-, order⟩
  have drop : bent.get 254 ≤ bent.get 255 := order 254 255 (by decide)
  have before : bent.get 254 = 16256 := Vector.getElem_ofFn (by omega)
  have last : bent.get 255 = 0 := Vector.getElem_ofFn (by omega)
  rw [before, last] at drop
  exact absurd drop (by decide)

end LedMatrix.Curve

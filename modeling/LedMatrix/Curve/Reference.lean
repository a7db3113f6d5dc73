import LedMatrix.Curve

/-! # The reference curve

The curve shipped for a fourteen-bit counter, entry by entry. It starts dark,
never falls and ends at the greatest count of that counter. -/

namespace LedMatrix.Curve

/-- The greatest count of the reference curve. -/
def referencePeak : UInt16 := 16383

def referenceCounts : List UInt16 := [
  0, 7, 14, 21, 28, 36, 43, 50, 57, 64, 71, 78, 85, 93, 100, 107, 114, 121, 128, 135, 142, 149,
  157, 164, 172, 180, 189, 197, 206, 215, 225, 234, 244, 254, 265, 276, 287, 298, 310, 322, 334,
  346, 359, 373, 386, 400, 414, 428, 443, 458, 474, 490, 506, 522, 539, 557, 574, 592, 610, 629,
  648, 668, 688, 708, 729, 750, 771, 793, 815, 838, 861, 885, 909, 933, 958, 983, 1009, 1035,
  1061, 1088, 1116, 1144, 1172, 1201, 1230, 1260, 1290, 1321, 1353, 1384, 1417, 1449, 1482, 1516,
  1550, 1585, 1621, 1656, 1693, 1729, 1767, 1805, 1843, 1882, 1922, 1962, 2003, 2044, 2085, 2128,
  2171, 2214, 2258, 2303, 2348, 2394, 2440, 2487, 2535, 2583, 2632, 2681, 2731, 2782, 2833, 2885,
  2938, 2991, 3045, 3099, 3154, 3210, 3266, 3323, 3381, 3439, 3498, 3558, 3618, 3679, 3741, 3803,
  3867, 3930, 3995, 4060, 4126, 4193, 4260, 4328, 4397, 4466, 4536, 4607, 4679, 4752, 4825, 4899,
  4973, 5049, 5125, 5202, 5280, 5358, 5437, 5517, 5598, 5680, 5762, 5845, 5929, 6014, 6100, 6186,
  6273, 6361, 6450, 6540, 6630, 6722, 6814, 6907, 7001, 7095, 7191, 7287, 7385, 7483, 7582, 7682,
  7782, 7884, 7986, 8090, 8194, 8299, 8405, 8512, 8620, 8729, 8838, 8949, 9060, 9173, 9286, 9400,
  9516, 9632, 9749, 9867, 9986, 10106, 10227, 10348, 10471, 10595, 10720, 10845, 10972, 11100,
  11228, 11358, 11489, 11620, 11753, 11887, 12021, 12157, 12294, 12432, 12570, 12710, 12851,
  12993, 13136, 13279, 13424, 13570, 13718, 13866, 14015, 14165, 14317, 14469, 14622, 14777,
  14933, 15089, 15247, 15406, 15566, 15727, 15890, 16053, 16217, 16383]

theorem length_referenceCounts : referenceCounts.length = 256 := by
  decide +kernel

def reference : Curve := ⟨⟨referenceCounts.toArray, length_referenceCounts⟩⟩

theorem rising_reference : Rising reference.counts := by
  have pairs : (referenceCounts.zip referenceCounts.tail).all (fun (a, b) => a ≤ b) = true := by
    decide +kernel
  refine ⟨by rfl, fun i => ?_⟩
  have hi : i.val + 1 < referenceCounts.length := by rw [length_referenceCounts]; omega
  have hz : i.val < (referenceCounts.zip referenceCounts.tail).length := by
    simp only [List.length_zip, List.length_tail]; omega
  have := List.all_eq_true.mp pairs _ (List.getElem_mem hz)
  simpa [reference] using this

theorem peak_reference : reference.peak = referencePeak := by
  rfl

end LedMatrix.Curve

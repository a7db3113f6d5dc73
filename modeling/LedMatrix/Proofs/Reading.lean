import LedMatrix.Proofs.Receiver

/-! # Instructions are recoverable from the wire

Every burst leaves clock and latch low and is reported once, with the count that
names it and the words that were on the data lines. So the reports of a sequence
of instructions are the reports of each, one after the other: no burst changes
how a neighbour is read. -/

namespace LedMatrix

/-- What the data lines carry during a burst, if they held a word before. -/
def Burst.words (burst : Burst) (held : Word) : List Word :=
  burst.data.elim (List.replicate 16 held) fun planes => planes.masked.toList

theorem Burst.length_words (burst : Burst) (held : Word) : (burst.words held).length = 16 := by
  cases hd : burst.data <;> simp [Burst.words, hd]

namespace Wiring

theorem carryAll_latch (wiring : Wiring) (level : Level) :
    wiring.carryAll [.drive .latch level] = [.drive .latch level] := by
  cases wiring <;> rfl

theorem carryAll_pulse (wiring : Wiring) : wiring.carryAll Burst.pulse = Burst.pulse := by
  cases wiring <;> rfl

theorem carryAll_opening (wiring : Wiring) : wiring.carryAll Burst.opening = Burst.opening := by
  cases wiring <;> rfl

end Wiring

namespace Receiver

variable {r s : Receiver} {burst : Burst} {n : Nat}

/-! ## One burst -/

/-- The receiver after `n` clocks of a burst: the latch line is high once the
clocks that are left are fewer than those to be latched. -/
structure Midway (burst : Burst) (r s : Receiver) (n : Nat) : Prop where
  clock : s.levels .clock = .low
  latch : s.levels .latch = if 16 < n + burst.latched then .high else .low
  held : burst.data = none → s.levels.word = r.levels.word
  samples : s.samples = r.samples ++ (burst.words r.levels.word).take n
  edges : 16 < n + burst.latched → s.edges + 16 = n + burst.latched
  reports : s.reports = r.reports

theorem midway_zero (h : r.Quiet) (hl : burst.latched ≤ 16) : Midway burst r r 0 :=
  ⟨h.clock, by rw [if_neg (by omega)]; exact h.latch, fun _ => rfl, by simp, fun _ => by omega, rfl⟩

/-- The word of a clock is on the data lines before the clock rises. -/
theorem Midway.data (wiring : Wiring) (h : Midway burst r s n) (hn : n < 16) :
    ∃ levels : Levels,
      s.feedAll (wiring.carryAll
          (burst.data.elim [] fun planes => [.present planes[(⟨n, hn⟩ : Fin 16)]])) =
        { s with levels } ∧
      levels .clock = .low ∧ levels .latch = s.levels .latch ∧
      (burst.data = none → levels.word = r.levels.word) ∧
      (burst.words r.levels.word)[n]? = some levels.word := by
  cases hd : burst.data with
  | none =>
    refine ⟨s.levels, rfl, h.clock, rfl, fun _ => h.held hd, ?_⟩
    rw [Burst.words, hd, Option.elim_none, List.getElem?_replicate, if_pos hn, h.held hd]
  | some planes =>
    refine ⟨s.levels.apply (.present planes[n]), ?_, h.clock, rfl, nofun, ?_⟩
    · have hone : wiring.carryAll [.present planes[(⟨n, hn⟩ : Fin 16)]] =
          wiring.carry (.present planes[n]) := List.append_nil _
      rw [Option.elim_some, hone, feedAll_carry_present]
    · simp [Burst.words, hd, Planes.masked, Levels.word_present, hn]

/-- One more clock, once its word and the latch line are in place. -/
theorem Midway.pulse (clock : s.levels .clock = .low)
    (latch : s.levels .latch = if 16 < n + 1 + burst.latched then .high else .low)
    (held : burst.data = none → s.levels.word = r.levels.word)
    (word : (burst.words r.levels.word)[n]? = some s.levels.word)
    (samples : s.samples = r.samples ++ (burst.words r.levels.word).take n)
    (edges : 16 < n + 1 + burst.latched → s.edges + 1 + 16 = n + 1 + burst.latched)
    (reports : s.reports = r.reports) : Midway burst r (s.feedAll Burst.pulse) (n + 1) := by
  rw [feedAll_pulse clock]
  refine ⟨clock, latch, held, ?_, edges, reports⟩
  rw [List.take_add_one, word, samples, List.append_assoc]
  rfl

theorem Midway.cycle (wiring : Wiring) (h : Midway burst r s n) (hn : n < 16) :
    Midway burst r (s.feedAll (wiring.carryAll (burst.cycle ⟨n, hn⟩))) (n + 1) := by
  obtain ⟨levels, hdata, hclock, hlatch, hheld, hword⟩ := h.data wiring hn
  simp only [Burst.cycle, Wiring.carryAll_append, Wiring.carryAll_pulse, feedAll_append, hdata]
  -- the latch line rises on the first latched clock only, and its rise restarts the count
  by_cases hraise : n + burst.latched = 16
  · have low : levels .latch = .low := by rw [hlatch, h.latch, if_neg (by omega)]
    have same : Levels.word (Function.update levels .latch .high) = levels.word :=
      Levels.word_of_ne (by simp) _
    rw [if_pos hraise, Wiring.carryAll_latch, feedAll_cons, feed_latch_high low, feedAll_nil]
    refine .pulse ?_ ?_ ?_ ?_ h.samples ?_ h.reports
    · simpa using hclock
    · rw [if_pos (by omega)]
      simp
    · exact fun none => same.trans (hheld none)
    · exact hword.trans (congrArg some same.symm)
    · intro _
      show 0 + 1 + 16 = _
      omega
  · rw [if_neg hraise, Wiring.carryAll_nil, feedAll_nil]
    refine .pulse hclock ?_ hheld hword h.samples ?_ h.reports
    · have later : (16 < n + burst.latched) = (16 < n + 1 + burst.latched) :=
        propext ⟨fun _ => by omega, fun _ => by omega⟩
      exact hlatch.trans (h.latch.trans (by simp only [later]))
    · intro high
      have := h.edges (by omega)
      show s.edges + 1 + 16 = _
      omega

theorem midway_cycles (wiring : Wiring) (h : r.Quiet) (hl : burst.latched ≤ 16) (hn : n ≤ 16) :
    Midway burst r
      (r.feedAll (wiring.carryAll (((List.finRange 16).take n).flatMap burst.cycle))) n := by
  induction n with
  | zero => exact midway_zero h hl
  | succ n ih =>
    have hcycles : (List.finRange 16).take (n + 1) =
        (List.finRange 16).take n ++ [⟨n, hn⟩] := by
      rw [List.take_add_one]
      simp [show n < 16 from hn]
    rw [hcycles, List.flatMap_append, Wiring.carryAll_append, feedAll_append,
      List.flatMap_singleton]
    exact (ih (by omega)).cycle wiring hn

/-- A burst is reported once, with its count and its words. -/
theorem feedAll_burst (wiring : Wiring) (h : r.Quiet)
    (hl : 1 ≤ burst.latched ∧ burst.latched ≤ 16) :
    (r.feedAll (wiring.carryAll burst.signals)).Quiet ∧
      (r.feedAll (wiring.carryAll burst.signals)).reports =
        r.reports ++ [⟨burst.latched, burst.words r.levels.word⟩] := by
  have all := midway_cycles wiring h hl.2 (Nat.le_refl 16)
  have high := all.latch
  rw [if_pos (by omega)] at high
  have counted : _ = burst.latched :=
    Nat.add_right_cancel ((all.edges (by omega)).trans (Nat.add_comm ..))
  have sampled := all.samples
  rw [List.take_of_length_le (Nat.le_of_eq (burst.length_words _))] at sampled
  rw [List.take_of_length_le (Nat.le_refl 16)] at *
  rw [Burst.signals, Wiring.carryAll_append, feedAll_append, Wiring.carryAll_latch, feedAll_cons,
    feed_latch_low high, feedAll_nil]
  refine ⟨⟨?_, by simp⟩, ?_⟩
  · simpa using all.clock
  · show _ ++ [_] = _
    rw [all.reports, counted, sampled, List.rtake_eq_reverse_take_reverse]
    simp [burst.length_words]

end Receiver

/-! ## What is read of a report -/

/-- The chips take data on counts one and eleven only. -/
structure Reading where
  latched : Nat
  samples : Option (List Word)
  deriving DecidableEq

def Report.reading (report : Report) : Reading :=
  ⟨report.latched, if report.latched = 1 ∨ report.latched = 11 then some report.samples else none⟩

def Receiver.readings (r : Receiver) : List Reading := r.reports.map Report.reading

/-- A register value on all three data lines, its highest bit first. -/
def Register.spelled (value : UInt16) : List Word :=
  List.ofFn fun i : Fin 16 => if value.toBitVec.getMsbD i then Word.dataMask else 0

namespace Instruction

variable {cols : Nat}

/-- What a receiver reads while an instruction is sent. -/
def readings : Instruction cols → List Reading
  | .shift row => row.channels.toList.reverse.map fun planes => ⟨1, some planes.masked.toList⟩
  | .latchAll => [⟨3, none⟩]
  | .resetCounter => [⟨13, none⟩]
  | .configure value => [⟨15, none⟩, ⟨11, some (Register.spelled value)⟩]
  | .output _ | .rowsOff _ | .rowOn _ => []

end Instruction

/-- A value is spelled as the planes in which every primary counts it. -/
theorem Register.spelled_eq_toList (value : UInt16) :
    spelled value = (Planes.pack fun _ => value).toList := by
  have plane (b : Bool) : (Word.ofBits fun _ => b) = if b then Word.dataMask else 0 := by
    cases b <;> simp [Word.ofBits, Word.dataMask, Primary.all]
  rw [Planes.pack, Vector.toList_ofFn]
  simp only [plane, spelled]

/-- No two values are spelled alike. -/
theorem Register.spelled_injective : Function.Injective Register.spelled := by
  intro value other same
  rw [spelled_eq_toList, spelled_eq_toList, Vector.toList_inj] at same
  have count := Planes.value_pack (fun _ => value) .red
  rw [same, Planes.value_pack] at count
  exact count.symm

theorem Register.words_configData (value : UInt16) (held : Word) :
    (Burst.configData value).words held = spelled value := by
  have counts : (Planes.pack fun _ => value).value = fun _ => value :=
    funext (Planes.value_pack fun _ => value)
  have masked : (Planes.pack fun _ => value).masked = Planes.pack fun _ => value := by
    rw [← Planes.pack_value, counts]
  rw [Burst.words, Burst.configData, Option.elim_some, masked, spelled_eq_toList]

namespace Receiver

variable {r : Receiver}

theorem feedAll_opened (wiring : Wiring) (h : r.Quiet) (trace : Trace) :
    r.feedAll (wiring.carryAll (Burst.opening ++ trace)) = r.feedAll (wiring.carryAll trace) := by
  rw [Wiring.carryAll_append, Wiring.carryAll_opening, feedAll_append, feedAll_opening h]

theorem readings_burst (wiring : Wiring) (burst : Burst) (h : r.Quiet)
    (hl : 1 ≤ burst.latched ∧ burst.latched ≤ 16) :
    (r.feedAll (wiring.carryAll burst.signals)).Quiet ∧
      (r.feedAll (wiring.carryAll burst.signals)).readings =
        r.readings ++ [Report.reading ⟨burst.latched, burst.words r.levels.word⟩] := by
  obtain ⟨quiet, reports⟩ := feedAll_burst wiring h hl
  refine ⟨quiet, ?_⟩
  rw [readings, reports, List.map_append]
  rfl

/-- A row goes out as one burst for each column, none of them disturbed by the last. -/
theorem readings_columns (wiring : Wiring) (columns : List Planes) (h : r.Quiet) :
    let sent := r.feedAll
      (wiring.carryAll (columns.flatMap fun planes => (Burst.column planes).signals))
    sent.Quiet ∧
      sent.readings = r.readings ++ columns.map fun planes => ⟨1, some planes.masked.toList⟩ := by
  induction columns generalizing r with
  | nil => exact ⟨h, (List.append_nil _).symm⟩
  | cons planes rest ih =>
    have counted : 1 ≤ (Burst.column planes).latched ∧ (Burst.column planes).latched ≤ 16 :=
      ⟨Nat.le_refl 1, Nat.le_add_left 1 15⟩
    obtain ⟨quiet, first⟩ := readings_burst wiring (Burst.column planes) h counted
    obtain ⟨quiet', others⟩ := ih quiet
    simp only [List.flatMap_cons, Wiring.carryAll_append, feedAll_append]
    refine ⟨quiet', others.trans ?_⟩
    rw [first, List.append_assoc]
    rfl

/-- Signals on the row lines and on the output enable line are read as nothing. -/
theorem readings_of_drive (wiring : Wiring) {trace : Trace} (h : r.Quiet)
    (hdrive : ∀ s ∈ trace, ∃ line level, s = .drive line level ∧ line ≠ .clock ∧ line ≠ .latch) :
    (r.feedAll (wiring.carryAll trace)).Quiet ∧
      (r.feedAll (wiring.carryAll trace)).readings = r.readings := by
  have untouched : ∀ s ∈ wiring.carryAll trace, s.touches .clock = false ∧
      s.touches .latch = false := by
    intro s hs
    obtain ⟨s', hs', hcarry⟩ := List.mem_flatMap.mp hs
    obtain ⟨line, level, rfl, hclock, hlatch⟩ := hdrive s' hs'
    rw [Wiring.carry_drive] at hcarry
    split at hcarry
    · rw [List.mem_singleton.mp hcarry]
      exact ⟨decide_eq_false hclock, decide_eq_false hlatch⟩
    · cases hcarry
  have clock := fun s hs => (untouched s hs).1
  have latch := fun s hs => (untouched s hs).2
  rw [feedAll_of_touches clock latch]
  refine ⟨⟨?_, ?_⟩, rfl⟩
  · exact (Levels.after_of_touches clock).trans h.clock
  · exact (Levels.after_of_touches latch).trans h.latch

theorem readings_instruction {cols : Nat} (wiring : Wiring) (i : Instruction cols) (h : r.Quiet) :
    (r.feedAll (wiring.carryAll i.signals)).Quiet ∧
      (r.feedAll (wiring.carryAll i.signals)).readings = r.readings ++ i.readings := by
  cases i with
  | shift row =>
    rw [Instruction.signals, feedAll_opened wiring h]
    exact readings_columns wiring _ h
  | latchAll =>
    rw [Instruction.signals, feedAll_opened wiring h]
    exact readings_burst wiring Burst.globalLatch h (by decide)
  | resetCounter =>
    rw [Instruction.signals, feedAll_opened wiring h]
    exact readings_burst wiring Burst.counterReset h (by decide)
  | configure value =>
    have counted : 1 ≤ (Burst.configData value).latched ∧ (Burst.configData value).latched ≤ 16 :=
      ⟨Nat.le_add_left 1 10, Nat.le_add_left 11 5⟩
    obtain ⟨quiet, enable⟩ := readings_burst wiring Burst.configEnable h (by decide)
    obtain ⟨quiet', data⟩ := readings_burst wiring (Burst.configData value) quiet counted
    rw [Instruction.signals, List.append_assoc, feedAll_opened wiring h, Wiring.carryAll_append,
      feedAll_append]
    refine ⟨quiet', ?_⟩
    rw [data, enable, Register.words_configData, List.append_assoc]
    rfl
  | output on =>
    rw [Instruction.readings, List.append_nil]
    refine readings_of_drive wiring h fun s hs => ?_
    exact ⟨_, _, List.mem_singleton.mp hs, by simp, by simp⟩
  | rowsOff count =>
    rw [Instruction.readings, List.append_nil]
    refine readings_of_drive wiring h fun s hs => ?_
    obtain ⟨n, -, rfl⟩ := List.mem_map.mp hs
    exact ⟨_, _, rfl, by simp, by simp⟩
  | rowOn row =>
    rw [Instruction.readings, List.append_nil]
    refine readings_of_drive wiring h fun s hs => ?_
    exact ⟨_, _, List.mem_singleton.mp hs, by simp, by simp⟩

theorem feedAll_instructions (wiring : Wiring) (sent : List ((cols : Nat) × Instruction cols))
    (h : r.Quiet) :
    let next := r.feedAll (wiring.carryAll (sent.flatMap fun i => i.2.signals))
    next.Quiet ∧ next.readings = r.readings ++ sent.flatMap fun i => i.2.readings := by
  induction sent generalizing r with
  | nil => exact ⟨h, (List.append_nil _).symm⟩
  | cons i rest ih =>
    obtain ⟨quiet, first⟩ := readings_instruction wiring i.2 h
    obtain ⟨quiet', others⟩ := ih quiet
    simp only [List.flatMap_cons, Wiring.carryAll_append, feedAll_append]
    refine ⟨quiet', others.trans ?_⟩
    rw [first, List.append_assoc]

/-- Gains are read alike exactly if they agree in the bits that count. -/
theorem readings_setGain_eq_iff {cols : Nat} {gain other : UInt8} :
    (Instruction.setGain gain : Instruction cols).readings =
        (Instruction.setGain other : Instruction cols).readings ↔
      gain &&& Register.gainMask = other &&& Register.gainMask := by
  rw [← Register.ofGain_eq_iff, ← Register.spelled_injective.eq_iff]
  simp [Instruction.setGain, Instruction.readings]

/-- Whatever instructions are sent, in whatever order and for rows of whatever widths, a
receiver that starts with clock and latch low reads exactly what each of them says, and
nothing else. Setting a gain is writing its register value, which tells gains apart. -/
theorem readings_instructions (wiring : Wiring) (sent : List ((cols : Nat) × Instruction cols))
    (r : Receiver) (h : r.Quiet) :
    (r.feedAll (wiring.carryAll (sent.flatMap fun i => i.2.signals))).readings =
        r.readings ++ sent.flatMap (fun i => i.2.readings) ∧
      ∀ (cols : Nat) (gain other : UInt8),
        (Instruction.setGain gain : Instruction cols).readings =
            (Instruction.setGain other : Instruction cols).readings ↔
          gain &&& Register.gainMask = other &&& Register.gainMask :=
  ⟨(feedAll_instructions wiring sent h).2, fun _ _ _ => readings_setGain_eq_iff⟩

/-- A row of one column, a latch and a new gain are told apart. -/
theorem readings_instructions_row_gain :
    let r : Receiver := ⟨Levels.low, [], 0, []⟩
    let sent : List ((cols : Nat) × Instruction cols) :=
      [⟨1, .shift ⟨#v[.pack fun _ => 0x8001]⟩⟩, ⟨1, .latchAll⟩, ⟨4, .setGain 3⟩]
    r.Quiet ∧
      (r.feedAll (Wiring.direct.carryAll (sent.flatMap fun i => i.2.signals))).readings =
        [⟨1, some (Register.spelled 0x8001)⟩, ⟨3, none⟩, ⟨15, none⟩,
          ⟨11, some (Register.spelled 0x8430)⟩] := by
  refine ⟨⟨rfl, rfl⟩, ?_⟩
  rw [(readings_instructions .direct _ _ ⟨rfl, rfl⟩).1]
  decide +kernel

end Receiver

end LedMatrix

import LedMatrix.Proofs.Reading

/-! # The driver chips

The chips shift the data lines in as the clock rises. As the latch line falls,
one counted clock makes what was shifted in a further column, and three show
the columns sent so far. What the chips hold is a function of what a receiver
reads. -/

namespace LedMatrix
open Levels (rises falls)

/-- The columns that were sent and those that are shown, each in the order sent. -/
structure Columns where
  pending : List (Primary → UInt16)
  displayed : List (Primary → UInt16)

def Columns.latch (columns : Columns) (edges : Nat) (counts : Primary → UInt16) : Columns :=
  match edges with
  | 1 => { columns with pending := columns.pending ++ [counts] }
  | 3 => ⟨[], columns.pending⟩
  | _ => columns

structure Chips where
  levels : Levels
  /-- The last sixteen bits of each data line. -/
  registers : Primary → UInt16
  /-- Clocks since the latch line rose. -/
  edges : Nat
  columns : Columns

namespace Chips

/-- Chips that were just switched on may hold anything in their registers. -/
def switchedOn (registers : Primary → UInt16) : Chips := ⟨Levels.low, registers, 0, ⟨[], []⟩⟩

def feed (chips : Chips) (s : Signal) : Chips :=
  let next := chips.levels.apply s
  { levels := next
    registers :=
      if rises .clock chips.levels next then
        fun p => Planes.push (chips.registers p) (next (.data p) = .high)
      else chips.registers
    edges :=
      if rises .latch chips.levels next then 0
      else if rises .clock chips.levels next then chips.edges + 1 else chips.edges
    columns :=
      if falls .latch chips.levels next then chips.columns.latch chips.edges chips.registers
      else chips.columns }

def feedAll (chips : Chips) (trace : Trace) : Chips := trace.foldl feed chips

end Chips

/-! ## Chips as readers -/

/-- The counts that words spell, the first word's bits highest. -/
def spell (words : List Word) (p : Primary) : UInt16 :=
  words.foldl (fun count word => Planes.push count (word.carries p)) 0

theorem spell_append_singleton (words : List Word) (word : Word) (p : Primary) :
    spell (words ++ [word]) p = Planes.push (spell words p) (word.carries p) := by
  simp [spell]

theorem spell_toList (planes : Planes) (p : Primary) : spell planes.toList p = planes.value p := by
  rw [spell, Vector.foldl_toList, Planes.value]

theorem spell_masked (planes : Planes) (p : Primary) :
    spell planes.masked.toList p = planes.value p := by
  rw [spell_toList, ← Planes.pack_value, Planes.value_pack]

/-- A count has no room for more than sixteen bits. -/
theorem spell_rtake {words : List Word} (h : 16 ≤ words.length) (p : Primary) :
    spell (words.rtake 16) p = spell words p := by
  apply UInt16.toBitVec_inj.mp
  apply BitVec.eq_of_getLsbD_eq
  intro k hk
  -- bit `k` comes from the word that is `k` before the last
  have last : (words.rtake 16).reverse = words.reverse.take 16 := by
    rw [List.rtake_eq_reverse_take_reverse, List.reverse_reverse]
  unfold spell
  rw [Planes.getLsbD_foldl p _ _ hk, Planes.getLsbD_foldl p _ _ hk, last]
  have there : k < (words.reverse.map (Word.carries · p)).length := by
    simp only [List.length_map, List.length_reverse]
    omega
  rw [List.map_take, List.getElem?_take_of_lt hk, List.getElem?_eq_getElem there]
  rfl

namespace Columns

def read (columns : Columns) (reading : Reading) : Columns :=
  columns.latch reading.latched (spell (reading.samples.getD []))

theorem latch_of_ne {columns : Columns} {edges : Nat} (counts others : Primary → UInt16)
    (h : edges ≠ 1) : columns.latch edges counts = columns.latch edges others := by
  unfold latch
  split
  · exact absurd rfl h
  · rfl
  · rfl

theorem read_report (columns : Columns) (edges : Nat) {samples : List Word}
    (h : 16 ≤ samples.length) :
    columns.read (Report.reading ⟨edges, samples.rtake 16⟩) =
      columns.latch edges (spell samples) := by
  by_cases he : edges = 1
  · subst he
    have counts : spell (samples.rtake 16) = spell samples := funext (spell_rtake h)
    simp [read, Report.reading, counts]
  · exact latch_of_ne _ _ he

end Columns

namespace Receiver

variable {r : Receiver} {trace : Trace}

def columns (r : Receiver) : Columns := r.readings.foldl Columns.read ⟨[], []⟩

/-- The chips that saw what a receiver saw. -/
def chips (r : Receiver) : Chips := ⟨r.levels, spell r.samples, r.edges, r.columns⟩

/-- A receiver that stands for chips just switched on. -/
def switchedOn (registers : Primary → UInt16) : Receiver :=
  ⟨Levels.low, (Planes.pack registers).toList, 0, []⟩

theorem chips_switchedOn (registers : Primary → UInt16) :
    (switchedOn registers).chips = .switchedOn registers := by
  have counts : spell (Planes.pack registers).toList = registers := by
    funext p
    rw [spell_toList, Planes.value_pack]
  rw [chips, switchedOn, counts]
  rfl

theorem length_samples_feed (r : Receiver) (s : Signal) :
    r.samples.length ≤ (r.feed s).samples.length := by
  simp only [feed]
  split
  · simp
  · exact Nat.le_refl _

theorem chips_feed (h : 16 ≤ r.samples.length) (s : Signal) :
    (r.feed s).chips = r.chips.feed s := by
  have registers : spell (r.feed s).samples = (r.chips.feed s).registers := by
    by_cases rise : rises .clock r.levels (r.levels.apply s) = true
    · have sampled : (r.feed s).samples = r.samples ++ [(r.levels.apply s).word] := if_pos rise
      refine Eq.trans ?_ (if_pos rise).symm
      funext p
      rw [sampled, spell_append_singleton, Levels.word, Word.carries_ofBits]
      rfl
    · have kept : (r.feed s).samples = r.samples := if_neg rise
      rw [kept]
      exact (if_neg rise).symm
  have columns : (r.feed s).columns = (r.chips.feed s).columns := by
    by_cases fall : falls .latch r.levels (r.levels.apply s) = true
    · have reported : (r.feed s).reports = r.reports ++ [⟨r.edges, r.samples.rtake 16⟩] :=
        if_pos fall
      refine Eq.trans ?_ (if_pos fall).symm
      rw [Receiver.columns, readings, reported, List.map_append, List.foldl_append]
      exact Columns.read_report _ _ h
    · have kept : (r.feed s).reports = r.reports := if_neg fall
      rw [Receiver.columns, readings, kept]
      exact (if_neg fall).symm
  rw [chips, registers, columns]
  rfl

theorem chips_feedAll (h : 16 ≤ r.samples.length) :
    (r.feedAll trace).chips = r.chips.feedAll trace := by
  induction trace generalizing r with
  | nil => rfl
  | cons s rest ih =>
    rw [feedAll_cons, ih (h.trans (r.length_samples_feed s)), chips_feed h s]
    rfl

end Receiver

/-! ## What instructions do to the columns -/

/-- A row as the chips hold it: the last column is sent first. -/
def Row.sent {cols : Nat} (row : Row cols) : List (Primary → UInt16) :=
  row.channels.toList.reverse.map Planes.value

theorem Row.length_sent {cols : Nat} (row : Row cols) : row.sent.length = cols := by
  simp [sent]

theorem Row.getElem?_sent {cols k : Nat} (row : Row cols) (hk : k < cols) (p : Primary) :
    row.sent[k]?.map (· p) = row.count? (cols - 1 - k) p := by
  have hk' : k < row.channels.toList.length := by simpa using hk
  rw [sent, List.getElem?_map, List.getElem?_reverse hk', Vector.length_toList, count?, channel?,
    Vector.getElem?_toList, Option.map_map]
  rfl

namespace Columns

variable {columns : Columns} {readings : List Reading}

theorem read_columns (columns : Columns) (planes : List Planes) :
    (planes.map fun ws => (⟨1, some ws.masked.toList⟩ : Reading)).foldl read columns =
      { columns with pending := columns.pending ++ planes.map Planes.value } := by
  induction planes generalizing columns with
  | nil => simp
  | cons ws rest ih =>
    have counts : spell ws.masked.toList = ws.value := funext (spell_masked ws)
    have first : columns.read ⟨1, some ws.masked.toList⟩ =
        { columns with pending := columns.pending ++ [ws.value] } := by
      rw [← counts]
      rfl
    rw [List.map_cons, List.foldl_cons, first, ih, List.append_assoc]
    rfl

theorem displayed_latch {edges : Nat} (counts : Primary → UInt16) (h : edges ≠ 3) :
    (columns.latch edges counts).displayed = columns.displayed := by
  unfold latch
  split
  · rfl
  · exact absurd rfl h
  · rfl

theorem latch_of_control {edges : Nat} (counts : Primary → UInt16) (one : edges ≠ 1)
    (three : edges ≠ 3) : columns.latch edges counts = columns := by
  unfold latch
  split
  · exact absurd rfl one
  · exact absurd rfl three
  · rfl

/-- Only a count of three changes what is shown. -/
theorem displayed_foldl (h : ∀ reading ∈ readings, reading.latched ≠ 3) :
    (readings.foldl read columns).displayed = columns.displayed := by
  induction readings generalizing columns with
  | nil => rfl
  | cons reading rest ih =>
    rw [List.foldl_cons, ih fun reading hr => h reading (List.mem_cons_of_mem _ hr)]
    exact displayed_latch _ (h reading List.mem_cons_self)

/-- Counts other than one and three leave the columns alone. -/
theorem foldl_of_control (h : ∀ reading ∈ readings, reading.latched ≠ 1 ∧ reading.latched ≠ 3) :
    readings.foldl read columns = columns := by
  induction readings with
  | nil => rfl
  | cons reading rest ih =>
    obtain ⟨one, three⟩ := h reading List.mem_cons_self
    have first : columns.read reading = columns := latch_of_control _ one three
    rw [List.foldl_cons, first, ih fun reading hr => h reading (List.mem_cons_of_mem _ hr)]

end Columns

namespace Receiver

variable {r : Receiver} {trace sent : Trace} {news : List Reading}

theorem reports_feedAll (r : Receiver) (trace : Trace) :
    r.reports <+: (r.feedAll trace).reports := by
  induction trace generalizing r with
  | nil => exact List.prefix_refl _
  | cons s rest ih =>
    have first : r.reports <+: (r.feed s).reports := by
      simp only [feed]
      split
      · exact List.prefix_append _ _
      · exact List.prefix_refl _
    exact first.trans (ih _)

/-- What instructions do to the columns, in the order in which they are sent. -/
theorem feedAll_sent {cols : Nat} (wiring : Wiring) (is : List (Instruction cols)) (h : r.Quiet) :
    let next := r.feedAll (wiring.carryAll (is.flatMap Instruction.signals))
    next.Quiet ∧ next.readings = r.readings ++ is.flatMap Instruction.readings := by
  have all := feedAll_instructions wiring (is.map (⟨cols, ·⟩)) h
  rwa [List.flatMap_map, List.flatMap_map] at all

theorem columns_of_readings (h : (r.feedAll trace).readings = r.readings ++ news) :
    (r.feedAll trace).columns = news.foldl Columns.read r.columns := by
  rw [columns, h, List.foldl_append, columns]

/-- While no count of three is sent, what is shown stays the same at every signal. -/
theorem displayed_of_prefix (h : (r.feedAll trace).readings = r.readings ++ news)
    (hread : ∀ reading ∈ news, reading.latched ≠ 3) (hsent : sent <+: trace) :
    (r.feedAll sent).columns.displayed = r.columns.displayed := by
  obtain ⟨rest, rfl⟩ := hsent
  obtain ⟨early, hearly⟩ := (r.reports_feedAll sent).map Report.reading
  obtain ⟨late, hlate⟩ := ((r.feedAll sent).reports_feedAll rest).map Report.reading
  rw [feedAll_append, readings, ← hlate, ← hearly, List.append_assoc, readings] at h
  have split := List.append_cancel_left h
  rw [columns_of_readings hearly.symm]
  exact Columns.displayed_foldl fun reading hr =>
    hread reading (split ▸ List.mem_append_left late hr)

end Receiver

end LedMatrix

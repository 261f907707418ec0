import IecCore.Delivery
import IecCore.Handlers.NumberCrusher
import IecCore.Iec.MergingUnit

/-! # Batches of frames in the handler

What the handler does with the buffers that the engine hands over, in terms of the frames that are in
them. When the parser accepts the frames and every batch is intact, the handler finds their ASDUs, so
that nothing but a sample count can raise an exception.

* **`asdusOf`**, **`counts`** — the ASDUs of a batch, and the sample counts of batches.
* **`Whole groups`** — the batches are of accepted frames, and intact (`whole_batches`).
* **`map_sequenceOf`** — `buffers.map sequenceOf = groups.map asdusOf` for buffers that hold them.
* **`run_of_whole`** — batches with right sample counts are crunched to the end.
* **`batches_of_unit`**, **`report_of_unit`** — the frames of a merging unit arrive, and a signal of
  it that alternates is reported. -/

namespace IecCore

open BPFEngine Iec NumberCrusher

section Batches

variable [Bytes.Host]

/-- The ASDUs of the frames of a batch, in the order of the frames. -/
def asdusOf (batch : List (List UInt8)) : List ASDU := batch.flatMap asdusAlone

/-- The sample counts of batches, in the order of their ASDUs: what the validator is fed with. -/
def counts (groups : List (List (List UInt8))) : List UInt16 :=
  (groups.flatMap asdusOf).map ASDU.smpCnt

/-- A frame that is accepted has an ASDU: `1 ≤ pdu.asdus.length` in the grammar. -/
theorem asdusAlone_ne_nil {frame : List UInt8} (haccepted : AcceptedAlone frame) :
    asdusAlone frame ≠ [] := by
  obtain ⟨f, hf, rfl⟩ := acceptedAlone_iff.mp haccepted
  have hcount := f.pdu.count
  rw [asdusAlone_encode hf]
  refine List.ne_nil_of_length_pos ?_
  rw [SvPdu.values, List.length_map]
  omega

/-- An ASDU takes at least 93 bytes of its frame, so that few frames have few ASDUs. -/
theorem length_flatMap_asdusAlone {frames : List (List UInt8)}
    (haccepted : ∀ frame ∈ frames, AcceptedAlone frame) :
    93 * (frames.flatMap asdusAlone).length ≤ frames.flatten.length := by
  induction frames with
  | nil => exact le_refl _
  | cons frame frames ih =>
      obtain ⟨hframe, hframes⟩ := List.forall_mem_cons.mp haccepted
      obtain ⟨f, hf, rfl⟩ := acceptedAlone_iff.mp hframe
      have hlater := ih hframes
      have hasdus := (length_flatMap_encode f.pdu.asdus).1
      obtain ⟨hsav, hlength, -, -⟩ := f.pdu.length_bounds
      rw [← SvPdu.asduBytes] at hasdus
      rw [List.flatMap_cons, List.flatten_cons, List.length_append, List.length_append,
        asdusAlone_encode hf, SvPdu.values, List.length_map, SvFrame.length_encode]
      omega

/-- Batches that arrive **whole**: their frames are accepted, and the buffers that the engine fills
with them hold all of their bytes that matter. -/
structure Whole (groups : List (List (List UInt8))) : Prop where
  /-- A batch ends with the frame that leaves too little room for another one. -/
  filled : ∀ batch ∈ groups, ∃ init last, batch = init ++ [last] ∧
    init.flatten.length + handOverBelow ≤ bufferSize
  /-- The frames: each of them is accepted alone and read to its end. -/
  accepted : ∀ batch ∈ groups, ∀ frame ∈ batch, AcceptedAlone frame
  /-- The batches: each leaves a byte of the buffer free, or what is cut off of it is zero. -/
  intact : ∀ batch ∈ groups, Intact batch

/-- The batches of accepted frames arrive whole when they are intact: that a batch is `filled` is
what `batches` makes of any frames. -/
theorem whole_batches {frames : List (List UInt8)} (haccepted : ∀ frame ∈ frames, AcceptedAlone frame)
    (hintact : ∀ batch ∈ batches [] frames, Intact batch) : Whole (batches [] frames) := by
  have hspec : ∀ batch ∈ batches [] frames, (∀ frame ∈ batch, frame ∈ frames) ∧
      ∃ init last, batch = init ++ [last] ∧ init.flatten.length + handOverBelow ≤ bufferSize ∧
        bufferSize < batch.flatten.length + handOverBelow := batches_spec (by decide)
  refine ⟨fun batch hbatch => ?_, fun batch hbatch frame hframe => ?_, hintact⟩
  · obtain ⟨-, init, last, heq, hroom, -⟩ := hspec batch hbatch
    exact ⟨init, last, heq, hroom⟩
  · exact haccepted frame ((hspec batch hbatch).1 frame hframe)

/-- No batch is without ASDUs: it has a last frame, which is accepted. -/
theorem Whole.ne_nil {groups : List (List (List UInt8))} (h : Whole groups) :
    ∀ batch ∈ groups, asdusOf batch ≠ [] := by
  intro batch hbatch
  obtain ⟨init, last, rfl, -⟩ := h.filled batch hbatch
  have hlast := asdusAlone_ne_nil (h.accepted _ hbatch last (by simp))
  rw [asdusOf, List.flatMap_append, List.flatMap_singleton]
  exact List.append_ne_nil_of_right_ne_nil _ hlast

/-- **The handler finds the ASDUs** of batches that arrive whole:
`buffers.map sequenceOf = groups.map asdusOf` for buffers that hold the batches one by one. -/
theorem map_sequenceOf {buffers : List Buffer} {groups : List (List (List UInt8))}
    (hholds : List.Forall₂ Holds buffers groups) (hwhole : Whole groups) :
    buffers.map sequenceOf = groups.map asdusOf := by
  obtain ⟨hfilled, haccepted, hintact⟩ := hwhole
  induction hholds with
  | nil => rfl
  | @cons buffer batch buffers groups hbuffer _ ih =>
      obtain ⟨⟨init, last, hbatch, hroom⟩, hfilled⟩ := List.forall_mem_cons.mp hfilled
      obtain ⟨hframes, haccepted⟩ := List.forall_mem_cons.mp haccepted
      obtain ⟨hfits, hintact⟩ := List.forall_mem_cons.mp hintact
      obtain ⟨sequence, left, t, hparse, -, hiff⟩ := parse_batch hbuffer hbatch hroom hframes 0
      -- the handler finds the ASDUs of the frames exactly when the batch is intact
      have hsequence : sequenceOf buffer = asdusOf batch := by
        rw [sequenceOf, IecParser.new, hparse]
        exact hiff.mpr hfits
      rw [List.map_cons, List.map_cons, hsequence, ih hfilled haccepted hintact]

/-- Buffers with the ASDUs of batches are `Valid` exactly when the sample counts of the batches,
taken together, may follow one another. -/
theorem valid_iff {buffers : List Buffer} {groups : List (List (List UInt8))}
    (hmap : buffers.map sequenceOf = groups.map asdusOf)
    (hne : ∀ batch ∈ groups, asdusOf batch ≠ []) :
    Valid buffers ↔ (counts groups).IsChain Validator.Succeeds := by
  have hcounts : (buffers.flatMap sequenceOf).map ASDU.smpCnt = counts groups := by
    rw [counts, List.flatMap_def, hmap, ← List.flatMap_def]
  have hnonempty : ∀ buffer ∈ buffers, sequenceOf buffer ≠ [] := by
    intro buffer hbuffer
    have hmem : sequenceOf buffer ∈ groups.map asdusOf := hmap ▸ List.mem_map_of_mem hbuffer
    obtain ⟨batch, hbatch, heq⟩ := List.mem_map.mp hmem
    rw [← heq]
    exact hne batch hbatch
  rw [← hcounts]
  exact ⟨Valid.succeeds, Valid.mk hnonempty⟩

end Batches

/-! ## A run -/

variable {data : Vector UInt8 bufferSize} {waiting : List (Option (List UInt8))}

/-- The engine hands over buffers that hold the batches of what it receives, one by one. -/
theorem holds_batches (data : Vector UInt8 bufferSize) (waiting : List (Option (List UInt8))) :
    List.Forall₂ Holds (BPFEngine.run (constructed data) waiting) (batches [] waiting.reduceOption) :=
  run_holds (holds_nil rfl rfl) (by decide) waiting

/-- **A run without an exception**: the handler crunches batches that arrive whole when their sample
counts may follow one another. -/
theorem run_of_whole [Bytes.Host] {groups : List (List (List UInt8))}
    (hholds : List.Forall₂ Holds (BPFEngine.run (constructed data) waiting) groups)
    (hwhole : Whole groups) (hcounts : (counts groups).IsChain Validator.Succeeds)
    (buffer : Buffer) :
    ∃ t windows, NumberCrusher.run (BPFEngine.run (constructed data) waiting) (.new buffer)
      = .ok () t ∧ Ledger (groups.map asdusOf) t windows := by
  have hmap := map_sequenceOf hholds hwhole
  have hhanded := handed_run data waiting
  obtain ⟨v, hupdates⟩ := updates_ok_iff.mpr ((valid_iff hmap hwhole.ne_nil).mpr hcounts)
  obtain ⟨t, hrun, -, -, hcrunched⟩ := run_of_updates buffer hhanded hupdates
  exact ⟨t, _, hrun, hmap ▸ hcrunched.ledger (length_sequenceOf_le hhanded)⟩

/-! ## The frames of a merging unit -/

namespace Iec

namespace MergingUnit

variable (unit : MergingUnit)

/-- The frames of the unit **fit** the buffer: a batch of them, which ends with the frame behind
which there are less than 800 bytes, leaves a byte of it free. -/
def Fits : Prop :=
  ∀ n, n * unit.frameSize + handOverBelow ≤ bufferSize → (n + 1) * unit.frameSize < bufferSize

/-- The samples of the unit **alternate**: each channel changes its sign from sample to sample. -/
structure Alternates : Prop where
  /-- The first sample is positive. -/
  positive : ∀ i, 0 < samples (unit.asdu 0) i
  /-- The signal turns around: every sample is the one before with the other sign. -/
  turns : ∀ n i, samples (unit.asdu (n + 1)) i = -samples (unit.asdu n) i

variable {unit}

/-- The value of sample `n` of a unit whose samples alternate: the first one, or its negation. -/
theorem Alternates.samples_eq (h : unit.Alternates) (n : Nat) (i : Algo.Channel) :
    samples (unit.asdu n) i
      = if Even n then samples (unit.asdu 0) i else -samples (unit.asdu 0) i := by
  induction n with
  | zero => rw [if_pos Even.zero]
  | succ n ih =>
      rw [h.turns, ih]
      by_cases heven : Even n
      · rw [if_pos heven, if_neg (by rwa [Nat.even_add_one, not_not])]
      · rw [if_neg heven, if_pos (Nat.even_add_one.mpr heven), neg_neg]

/-- The points of such a unit alternate as well: the conversion keeps the sign. -/
theorem Alternates.points (h : unit.Alternates) {points : List Algo.Point} {n : Nat}
    (hpoints : points <+: (List.range n).map fun k => pointOf (unit.asdu k)) :
    Algo.Binary32.Alternates points fun i => scaled i (samples (unit.asdu 0) i) := by
  intro j point hpoint i
  obtain ⟨hj, rfl⟩ := List.getElem?_eq_some_iff.mp hpoint
  have hvalue : ((pointOf (unit.asdu j)).values i : ℚ) = scaled i (samples (unit.asdu j) i) := rfl
  rw [hpoints.getElem hj, List.getElem_map, List.getElem_range, hvalue, h.samples_eq]
  split_ifs
  · rfl
  · exact scaled_neg i _

section Handler

variable [Bytes.Host] {m : Nat}

/-- **The samples in batches** are the first ones, and at most 79 of the unit's samples stay in the
buffer of the engine: they take 93 bytes each, and 800 bytes of it are free. -/
theorem asdusOf_batches (unit : MergingUnit) (m : Nat) :
    ∃ n, (batches [] (unit.frames m)).flatMap asdusOf = (List.range n).map unit.asdu ∧
      m * unit.perFrame ≤ n + 79 := by
  have hempty : ([] : List (List UInt8)).flatten.length + handOverBelow ≤ bufferSize := by decide
  obtain ⟨rest, hall, hroom⟩ := @flatten_batches [] (unit.frames m) hempty
  rw [List.nil_append] at hall
  have hbatched : (batches [] (unit.frames m)).flatMap asdusOf
      = (batches [] (unit.frames m)).flatten.flatMap asdusAlone := by
    rw [List.flatten_eq_flatMap, List.flatMap_assoc]
    rfl
  have hsamples := unit.asdusAlone_frames m
  rw [← hall, List.flatMap_append, ← hbatched] at hsamples
  -- what waits in the engine has less than 7393 bytes, and an ASDU has 93 of them
  have hrest := @length_flatMap_asdusAlone _ rest fun frame hframe =>
    unit.acceptedAlone_of_mem_frames (hall ▸ List.mem_append_right _ hframe)
  have hlength := congrArg List.length hsamples
  rw [List.length_append, List.length_map, List.length_range] at hlength
  refine ⟨((batches [] (unit.frames m)).flatMap asdusOf).length, ?_, ?_⟩
  · have hprefix := List.prefix_iff_eq_take.mp ⟨_, hsamples⟩
    rw [← List.map_take, List.take_range, min_eq_left (by omega)] at hprefix
    exact hprefix
  · have hsize : bufferSize = 8192 := rfl
    have hbelow : handOverBelow = 800 := rfl
    omega

/-- **The batches of a unit** that fits the buffer arrive whole, and their sample counts may follow
one another. -/
theorem batches_of_unit (hfits : unit.Fits) (m : Nat) :
    Whole (batches [] (unit.frames m)) ∧
      (counts (batches [] (unit.frames m))).IsChain Validator.Succeeds := by
  have hspec : ∀ batch ∈ batches [] (unit.frames m), (∀ frame ∈ batch, frame ∈ unit.frames m) ∧
      ∃ init last, batch = init ++ [last] ∧ init.flatten.length + handOverBelow ≤ bufferSize ∧
        bufferSize < batch.flatten.length + handOverBelow := batches_spec (by decide)
  have hsize (l : List (List UInt8)) (hl : ∀ frame ∈ l, frame ∈ unit.frames m) :
      l.flatten.length = l.length * unit.frameSize := by
    have hlengths : l.map List.length = List.replicate l.length unit.frameSize :=
      List.map_eq_replicate_iff.mpr fun frame hframe => unit.length_of_mem_frames (hl frame hframe)
    rw [List.length_flatten, hlengths, List.sum_replicate_nat]
  refine ⟨whole_batches (fun frame => unit.acceptedAlone_of_mem_frames) ?_, ?_⟩
  · -- the frames before the last one leave 800 bytes free
    intro batch hbatch
    obtain ⟨hframes, init, last, rfl, hroom, -⟩ := hspec batch hbatch
    rw [hsize init fun frame hframe => hframes frame (List.mem_append_left _ hframe)] at hroom
    left
    rw [hsize _ hframes, List.length_append, List.length_singleton]
    exact hfits init.length hroom
  · obtain ⟨n, hbatched, -⟩ := unit.asdusOf_batches m
    rw [counts, hbatched]
    exact unit.isChain_smpCnt n

/-- **A signal that alternates is reported**: of 592 samples at least 513 are in batches, and the
first window of them has three points on the other side of the midline than its first one. -/
theorem report_of_unit (hfits : unit.Fits) (halternates : unit.Alternates)
    (hm : 592 ≤ m * unit.perFrame) (hwaiting : waiting.reduceOption = unit.frames m)
    (buffer : Buffer) :
    ∃ t, NumberCrusher.run (BPFEngine.run (constructed data) waiting) (.new buffer) = .ok () t ∧
      t.printed ≠ [] := by
  obtain ⟨hwhole, hcounts⟩ := batches_of_unit hfits m
  have hholds := holds_batches data waiting
  rw [hwaiting] at hholds
  obtain ⟨t, windows, hrun, hledger⟩ := run_of_whole hholds hwhole hcounts buffer
  refine ⟨t, hrun, ?_⟩
  obtain ⟨n, hbatched, hn⟩ := unit.asdusOf_batches m
  have hpoints := hledger.points
  rw [← List.flatMap_def, hbatched, List.map_map] at hpoints
  cases windows with
  | nil =>
      -- there are too many points for none of them to be in a window
      have hlength := congrArg List.length hpoints
      rw [List.flatten_nil, List.nil_append, List.length_map, List.length_range] at hlength
      have hwaits := hledger.waiting
      omega
  | cons window windows =>
      obtain ⟨hlong, -⟩ := hledger.lengths window List.mem_cons_self
      obtain ⟨hsingle, -⟩ := hledger.single window List.mem_cons_self
      rw [List.flatten_cons, List.append_assoc] at hpoints
      have hnonempty : window ≠ [] := List.ne_nil_of_length_pos (by omega)
      have hreport := (halternates.points ⟨_, hpoints⟩).report
        (fun i => le_trans (by norm_num [Algo.f32min]) (le_scaled i (halternates.positive i)))
        (by omega) 1 hsingle hnonempty
      obtain ⟨report, heq⟩ := Option.isSome_iff_exists.mp hreport
      rw [hledger.printed, reports, NumberCrusher.report, dif_neg hnonempty, heq]
      exact List.cons_ne_nil _ _

end Handler

/-! ## A square wave -/

/-- The sample `n` of a square wave: 1000 and -1000 in turn, in every channel. -/
def squareData (n : Nat) : Vector DataUnit unitsPerASDU :=
  Vector.replicate unitsPerASDU
    { instMagI := if n % 2 = 0 then 1000 else -1000, quality := 0, bitset := 0 }

/-- A unit that publishes fifteen samples of a square wave in a frame, with the svID
`ENS80pointMU01`. -/
def squareUnit : MergingUnit where
  etherHeader := [0x01, 0x0c, 0xcd, 0x04, 0, 0, 0x0c, 0xef, 0xaf, 0x30, 0x42, 0xcc, 0x88, 0xba]
  svId := [0x45, 0x4e, 0x53, 0x38, 0x30, 0x70, 0x6f, 0x69, 0x6e, 0x74, 0x4d, 0x55, 0x30, 0x31]
  perFrame := 15
  data := squareData
  length_etherHeader := rfl
  length_svId := ⟨Nat.le_add_right 10 4, Nat.le_add_right 14 20⟩
  perFrame_bounds := ⟨Nat.le_add_right 3 12, Nat.le_add_right 15 1⟩

/-- `squareUnit` **fits**: its frames have 1488 bytes, and five of them are a batch of the
engine. -/
theorem squareUnit_fits : squareUnit.Fits := by
  intro n hroom
  have hframe : squareUnit.frameSize = 1488 := rfl
  have hsize : bufferSize = 8192 := rfl
  have hbelow : handOverBelow = 800 := rfl
  rw [hframe] at hroom ⊢
  omega

theorem samples_squareUnit (n : Nat) (i : Algo.Channel) :
    samples (squareUnit.asdu n) i = if n % 2 = 0 then 1000 else -1000 := by
  show ((squareData n)[i]).instMagI.toInt = _
  rw [squareData, Fin.getElem_fin, Vector.getElem_replicate]
  split_ifs
  · rfl
  · rfl

theorem squareUnit_alternates : squareUnit.Alternates where
  positive i := by
    rw [samples_squareUnit]
    decide
  turns n i := by
    rw [samples_squareUnit, samples_squareUnit]
    split_ifs
    all_goals omega

end MergingUnit

end Iec

end IecCore

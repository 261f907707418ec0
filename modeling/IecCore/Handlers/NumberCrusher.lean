import IecCore.Algo.Binary32
import IecCore.Engines.BpfEngine
import IecCore.Iec.Bounds
import IecCore.Iec.Conversion
import IecCore.Iec.LossDetection
import IecCore.Lib.Positions
import IecCore.Lib.Windows

/-! # The handler

`handlers::NumberCrusher::run` gets a buffer, parses it, checks the sample counts, converts the
ASDUs to points and, when there are more than 512 of these, looks for the extremes and starts a new
batch of points. An exception of the validator is not caught: it ends the thread, and with it the
program. What the handler has made of its buffers is said by the ASDUs in them, without its loop.

* **`NumberCrusher`**, **`iteration`**, **`run`** — the handler and its loop, for the buffers that it
  gets until it is stopped.
* **`Handed buffer`**, **`sequenceOf buffer`** — a buffer as the engine hands it over, and its ASDUs;
  `parse_handed` says that the parser returns them, 88 at most.
* **`Valid buffers`** — the buffers that raise no exception (`updates_ok_iff`).
* **`Crunched sequences s`** — what the handler has made of the sequences of ASDUs.
* **`Ledger`** — the windows of the points, and what is printed for them, in numbered reports.
* **`run_outcome`**, **`outcome`** — a run crunches the longest valid beginning of its buffers, and
  stops behind it with an exception.
* **`output_run_append`** — a run takes nothing back that it has printed. -/

namespace IecCore

open Iec Algo BPFEngine

/-- What ends the loop of the handler before it is stopped: a `Fault` of the parser, or an
exception. -/
inductive Stop
  /-- A read outside of the buffer, or a parser that does not return. -/
  | fault (fault : Fault)
  /-- An exception. -/
  | exception (message : String)
  deriving DecidableEq, Repr

/-- The **handler**, and the data of `findMinMax`: its static counter and its output. -/
structure NumberCrusher where
  /-- The buffer, into which `get` moves what was handed over. -/
  buffer : Buffer
  /-- The parser, whose counter the next call starts with. -/
  parser : IecParser
  /-- The validator, with the strategy of exceptions. -/
  validator : Validator
  /-- The points that wait for being processed, the open window. -/
  points : List Point
  /-- The static counter of `findMinMax`. -/
  count : Nat
  /-- What `findMinMax` has printed, the oldest report first. -/
  printed : List Binary32.Report

namespace NumberCrusher

/-- The handler after its construction; the array of its buffer is not initialised. -/
def new (buffer : Buffer) : NumberCrusher where
  buffer := buffer
  parser := .new
  validator := .new
  points := []
  count := 1
  printed := []

/-! ## The loop -/

/-- `parser.parse(buffer)`, with the parser and the buffer of the handler. -/
def parse [Bytes.Host] : EStateM Stop NumberCrusher (List ASDU) :=
  EStateM.adaptExcept .fault (zoom (fun s => { parser := s.parser, buffer := s.buffer })
    (fun p s => { s with parser := p.parser, buffer := p.buffer }) IecParser.parse)

/-- `validator.update(sequence)`, whose exception is not caught. -/
def update (sequence : List ASDU) : EStateM Stop NumberCrusher Unit :=
  EStateM.adaptExcept .exception (zoom NumberCrusher.validator
    (fun validator s => { s with validator := validator }) (Validator.update sequence))

/-- The number of points that is to be exceeded before they are processed. -/
def maxPoints : Nat := 512

theorem ne_nil_of_maxPoints_lt {points : List Point} (h : maxPoints < points.length) :
    points ≠ [] :=
  List.ne_nil_of_length_pos (Nat.zero_lt_of_lt h)

/-- `findMinMax(points)` and `points.clear()`, when there are enough points. -/
def crunch (s : NumberCrusher) : NumberCrusher :=
  if h : maxPoints < s.points.length then
    let printing := Binary32.findMinMax s.count s.points (ne_nil_of_maxPoints_lt h)
    { s with count := printing.2, printed := s.printed ++ printing.1.toList, points := [] }
  else s

/-- One iteration of the loop, with the buffer that `get` moves into the one of the handler. -/
def iteration [Bytes.Host] (got : Buffer) : EStateM Stop NumberCrusher Unit := do
  modify fun s => { s with buffer := got }
  let sequence ← parse
  -- an exception leaves the points as they are
  update sequence
  modify fun s => { s with points := convert sequence s.points }
  modify crunch

/-- `run`, for the buffers that it gets until it is stopped: one iteration of the loop for each of
them. -/
def run [Bytes.Host] (buffers : List Buffer) : EStateM Stop NumberCrusher Unit :=
  forM buffers iteration

/-! ## The ASDUs of a buffer -/

/-- A buffer as the engine **hands** it over: not read, and not written past its end. -/
structure Handed (buffer : Buffer) : Prop where
  /-- Nothing was read: the engine hands over buffers that it has only written to. -/
  offset : buffer.offset = 0
  /-- What was written is in the array: at most `bufferSize` bytes. -/
  written : buffer.written.toNat ≤ bufferSize

/-- The engine hands over such buffers, whatever it receives: `Handed buffer` for every one of
`BPFEngine.run`. -/
theorem handed_run (data : Vector UInt8 bufferSize) (waiting : List (Option (List UInt8))) :
    ∀ buffer ∈ BPFEngine.run (constructed data) waiting, Handed buffer := by
  have hholds : List.Forall₂ Holds (BPFEngine.run (constructed data) waiting)
      (batches [] waiting.reduceOption) := run_holds (holds_nil rfl rfl) (by decide) waiting
  intro buffer hbuffer
  obtain ⟨i, hi, rfl⟩ := List.getElem_of_mem hbuffer
  have hget := hholds.get hi (hholds.length_eq ▸ hi)
  rw [List.get_eq_getElem] at hget
  exact ⟨hget.offset, hget.written.trans_le (Nat.min_le_left ..)⟩

section Parse

variable [Bytes.Host]

/-- The ASDUs that a new parser finds in a buffer, and none when the call does not return. -/
def sequenceOf (buffer : Buffer) : List ASDU :=
  match IecParser.parse { parser := .new, buffer := buffer } with
  | .ok sequence _ => sequence
  | .error _ _ => []

/-- The largest number of ASDUs of a buffer, each of which has 93 bytes at least. -/
def maxASDUs : Nat := 88

/-- **Parsing** a buffer that was handed over returns its ASDUs, and there are at most 88. -/
theorem parse_handed {buffer : Buffer} (hhanded : Handed buffer) (internalFrameLength : UInt16) :
    (∃ left t, IecParser.parse { parser := { sequence := [], internalFrameLength }, buffer := buffer }
      = .ok (sequenceOf buffer)
          { parser := { sequence := [], internalFrameLength := left }, buffer := t }) ∧
      (sequenceOf buffer).length ≤ maxASDUs := by
  have hwritten := hhanded.written
  have hsize : bufferSize = 8192 := rfl
  have hreadable := buffer.length_readable
  have hends := framesScan_isSome buffer.readable buffer.written.toNat
    (Nat.le_add_left buffer.written.toNat 0)
  obtain ⟨⟨asdus, stop⟩, hscan⟩ := Option.isSome_iff_exists.mp hends
  have hparse := fun left =>
    IecParser.parse_start hhanded.offset (by omega) [] left hscan
  -- a new parser finds the same
  have hsequence : sequenceOf buffer = asdus := by
    obtain ⟨left, hnew⟩ := hparse 0
    rw [sequenceOf, IecParser.new, hnew]
    rfl
  rw [hsequence]
  refine ⟨?_, ?_⟩
  · obtain ⟨left, hok⟩ := hparse internalFrameLength
    exact ⟨left, _, hok⟩
  · have hstop := framesScan_stop hscan (by omega)
    have hroom := (framesScan_spread hscan).2
    rw [maxASDUs]
    omega

end Parse

/-! ## One iteration -/

@[simp] theorem parser_crunch (s : NumberCrusher) : s.crunch.parser = s.parser := by
  rw [crunch]
  split <;> rfl

@[simp] theorem validator_crunch (s : NumberCrusher) : s.crunch.validator = s.validator := by
  rw [crunch]
  split <;> rfl

/-- Between two iterations the parser holds no ASDUs, so that those of a buffer are all it
returns. -/
def Ready (s : NumberCrusher) : Prop := s.parser.sequence = []

variable {s : NumberCrusher} {sequence : List ASDU} {v : Validator} {message : String}

/-- The validator, in an iteration without an exception: the new state takes the place of the old
one, and nothing is printed. -/
theorem update_of_ok (hupdate : Validator.update sequence s.validator = .ok () v) :
    update sequence s = .ok () { s with validator := v } := by
  rw [update]
  exact adaptExcept_of_ok _ (zoom_of_ok hupdate)

/-- The validator, in an iteration with an exception: the handler keeps what it has written. -/
theorem update_of_error (hupdate : Validator.update sequence s.validator = .error message v) :
    update sequence s = .error (.exception message) { s with validator := v } := by
  rw [update]
  exact adaptExcept_of_error _ (zoom_of_error hupdate)

section Iteration

variable [Bytes.Host] {got : Buffer}

/-- The parser, in an iteration: its result is the one of the call on its own. -/
theorem parse_of_ok {p : IecParser.ParseState bufferSize}
    (hparse : IecParser.parse { parser := s.parser, buffer := s.buffer } = .ok sequence p) :
    parse s = .ok sequence { s with parser := p.parser, buffer := p.buffer } := by
  rw [parse]
  exact adaptExcept_of_ok _ (zoom_of_ok hparse)

/-- The parser, in an iteration with a buffer that was handed over: it returns `sequenceOf got`. -/
theorem parse_ready (hready : s.Ready) (hhanded : Handed got) :
    ∃ left t, parse { s with buffer := got } = .ok (sequenceOf got)
      { s with buffer := t, parser := { sequence := [], internalFrameLength := left } } := by
  obtain ⟨⟨left, t, hparse⟩, -⟩ := parse_handed hhanded s.parser.internalFrameLength
  rw [← hready] at hparse
  have hstate := parse_of_ok (s := { s with buffer := got }) hparse
  rw [hready] at hstate
  exact ⟨left, t, hstate⟩

/-- **An iteration** without an exception: the points of the buffer are put behind the others. -/
theorem iteration_ok (hready : s.Ready) (hhanded : Handed got)
    (hupdate : Validator.update (sequenceOf got) s.validator = .ok () v) :
    ∃ left t, iteration got s = .ok () (crunch
      { s with
        buffer := t, parser := { sequence := [], internalFrameLength := left }, validator := v
        points := convert (sequenceOf got) s.points }) := by
  obtain ⟨left, t, hparse⟩ := parse_ready hready hhanded
  refine ⟨left, t, ?_⟩
  rw [iteration, bind_modify, bind_of_ok hparse]
  exact bind_of_ok (update_of_ok (by exact hupdate))

/-- **An iteration** with an exception: its ASDUs are not converted. -/
theorem iteration_error (hready : s.Ready) (hhanded : Handed got)
    (hupdate : Validator.update (sequenceOf got) s.validator = .error message v) :
    ∃ left t, iteration got s = .error (.exception message)
      { s with
        buffer := t, parser := { sequence := [], internalFrameLength := left }
        validator := v } := by
  obtain ⟨left, t, hparse⟩ := parse_ready hready hhanded
  refine ⟨left, t, ?_⟩
  rw [iteration, bind_modify, bind_of_ok hparse]
  exact bind_of_error (update_of_error (by exact hupdate))

end Iteration

/-! ## What is printed -/

/-- `findMinMax` for a window of points; there is no call for an empty one. -/
def report (count : Nat) (window : List Point) : Option Binary32.Report × Nat :=
  if h : window = [] then (none, count) else Binary32.findMinMax count window h

/-- The reports of windows of points, and the counter behind them. -/
def reports : (count : Nat) → (windows : List (List Point)) → List Binary32.Report × Nat
  | count, [] => ([], count)
  | count, window :: windows =>
      ((report count window).1.toList ++ (reports (report count window).2 windows).1,
        (reports (report count window).2 windows).2)

/-- Reports behind others go on with the counter that those have left. -/
theorem reports_append (count : Nat) (windows later : List (List Point)) :
    reports count (windows ++ later)
      = ((reports count windows).1 ++ (reports (reports count windows).2 later).1,
          (reports (reports count windows).2 later).2) := by
  induction windows generalizing count with
  | nil => rfl
  | cons window windows ih =>
      rw [List.cons_append, reports, ih, reports, List.append_assoc]

/-- A call prints nothing, or a report with the number of the counter, which goes on. -/
theorem report_cases (count : Nat) (window : List Point) :
    report count window = (none, count) ∨
      ∃ r : Binary32.Report, report count window = (some r, count + 1) ∧ r.step = count ∧
        r.numPoints = window.length := by
  rw [report]
  split_ifs with hempty
  · exact .inl rfl
  · simp only [Binary32.findMinMax]
    split_ifs
    · exact .inl rfl
    · exact .inl rfl
    · exact .inl rfl
    · exact .inr ⟨_, rfl, rfl, rfl⟩

/-- **The reports are numbered** one after the other, from the counter on. -/
theorem reports_numbered (count : Nat) (windows : List (List Point)) :
    (reports count windows).1.map Binary32.Report.step = List.range' count (reports count windows).1.length ∧
      (reports count windows).2 = count + (reports count windows).1.length := by
  induction windows generalizing count with
  | nil => exact ⟨rfl, rfl⟩
  | cons window windows ih =>
      rw [reports]
      obtain hnone | ⟨r, hsome, hstep, -⟩ := report_cases count window
      · rw [hnone]
        exact ih count
      · simp only [hsome, Option.toList_some, List.singleton_append, List.map_cons,
          List.length_cons, List.range'_succ]
        obtain ⟨hnumbers, hcount⟩ := ih (count + 1)
        exact ⟨by rw [hnumbers, hstep], by omega⟩

/-- The chunks of points that sequences of ASDUs are converted to, one for each buffer. -/
def chunks (sequences : List (List ASDU)) : List (List Point) := sequences.map (·.map pointOf)

/-- The handler has **crunched** sequences of ASDUs: it has printed the reports of their windows,
and keeps the points of the window that is open. -/
structure Crunched (sequences : List (List ASDU)) (s : NumberCrusher) : Prop where
  /-- The open window: what is left of the points behind the last window that was processed. -/
  points : s.points = remainder maxPoints [] (chunks sequences)
  /-- The reports, and the counter, of the windows in their order. -/
  printed : (s.printed, s.count) = reports 1 (windows maxPoints [] (chunks sequences))

/-- A new handler has crunched nothing: `Crunched [] (new buffer)`. -/
theorem crunched_new (buffer : Buffer) : Crunched [] (new buffer) := ⟨rfl, rfl⟩

/-- **Another sequence** of ASDUs: its points end the open window, or wait in it. -/
theorem Crunched.crunch {sequences : List (List ASDU)} (h : Crunched sequences s)
    (sequence : List ASDU) {t : NumberCrusher} (hpoints : t.points = convert sequence s.points)
    (hcount : t.count = s.count) (hprinted : t.printed = s.printed) :
    Crunched (sequences ++ [sequence]) t.crunch := by
  obtain ⟨hopen, hreports⟩ := h
  have hchunks : chunks (sequences ++ [sequence]) = chunks sequences ++ [sequence.map pointOf] := by
    rw [chunks, List.map_append, List.map_singleton, chunks]
  obtain ⟨hwindows, hremainder⟩ :=
    @windows_append _ maxPoints [] (chunks sequences) [sequence.map pointOf]
  rw [← hchunks, ← hopen] at hwindows hremainder
  rw [convert] at hpoints
  obtain ⟨hp, hc⟩ := Prod.mk.inj hreports
  -- the window is long enough now and is processed, or it stays open
  by_cases hfull : maxPoints < t.points.length
  · have hlong := hfull
    rw [hpoints] at hlong
    obtain ⟨hlast, hnext⟩ := windows_cons_of_lt hlong []
    have hreport : report t.count t.points
        = Binary32.findMinMax t.count t.points (ne_nil_of_maxPoints_lt hfull) :=
      dif_neg (ne_nil_of_maxPoints_lt hfull)
    rw [NumberCrusher.crunch, dif_pos hfull, ← hreport]
    refine ⟨?_, ?_⟩
    · rw [hremainder, hnext]
      rfl
    · rw [hwindows, hlast, reports_append, ← hp, ← hc, ← hpoints, hprinted, hcount]
      simp only [windows, reports, List.append_nil]
  · have hshort := hfull
    rw [hpoints] at hshort
    obtain ⟨hlast, hnext⟩ := windows_cons_of_le hshort []
    rw [NumberCrusher.crunch, dif_neg hfull]
    refine ⟨?_, ?_⟩
    · rw [hremainder, hnext, hpoints]
      rfl
    · rw [hwindows, hlast, hprinted, hcount, windows, List.append_nil, hreports]

/-- The windows of a sequence of buffers and what is printed for them: all points are in a window or
wait, in order; the windows have 513 to 600 points, on which the arithmetic of `findMinMax` does not
overflow; the reports are those of the windows, numbered from one. -/
structure Ledger (sequences : List (List ASDU)) (s : NumberCrusher) (windows : List (List Point)) :
    Prop where
  /-- No point is lost, repeated or moved. -/
  points : windows.flatten ++ s.points = sequences.flatten.map pointOf
  /-- The lengths of the windows, 513 and more. -/
  lengths : ∀ window ∈ windows, 513 ≤ window.length ∧ window.length ≤ 600
  /-- The values are of type `f32`, and no operation of `findMinMax` on them overflows. -/
  single : ∀ window ∈ windows, (∀ point ∈ window, point.IsSingle) ∧ Single.InRange window
  /-- The number of points that wait, not enough for a window. -/
  waiting : s.points.length ≤ 512
  /-- The reports: those of the windows, numbered from one. -/
  printed : s.printed = (reports 1 windows).1
  /-- Their numbers: one after the other, none left out. -/
  numbers : s.printed.map Binary32.Report.step = List.range' 1 s.printed.length
  /-- The next number, behind those of the reports. -/
  count : s.count = 1 + s.printed.length

/-- **The ledger** of the handler: the sizes of its windows, and the numbers of its reports. -/
theorem Crunched.ledger {sequences : List (List ASDU)} (h : Crunched sequences s)
    (hlengths : ∀ sequence ∈ sequences, sequence.length ≤ maxASDUs) :
    Ledger sequences s (windows maxPoints [] (chunks sequences)) := by
  obtain ⟨hopen, hreports⟩ := h
  obtain ⟨hprinted, hcount⟩ := Prod.mk.inj hreports
  obtain ⟨hnumbers, hnext⟩ := reports_numbered 1 (windows maxPoints [] (chunks sequences))
  have hchunks : ∀ chunk ∈ chunks sequences, chunk.length ≤ maxASDUs := by
    intro chunk hchunk
    obtain ⟨sequence, hsequence, rfl⟩ := List.mem_map.mp hchunk
    rw [List.length_map]
    exact hlengths sequence hsequence
  have hpoints : (windows maxPoints [] (chunks sequences)).flatten ++ s.points
      = sequences.flatten.map pointOf := by
    rw [hopen, flatten_windows, List.nil_append, chunks, List.map_flatten]
  have hwindows : ∀ window ∈ windows maxPoints [] (chunks sequences),
      513 ≤ window.length ∧ window.length ≤ 600 :=
    @length_of_mem_windows _ maxPoints _ _ (Nat.zero_le _) _ hchunks
  refine ⟨hpoints, hwindows, ?_, ?_, hprinted, ?_, ?_⟩
  · intro window hwindow
    -- every point of a window is that of an ASDU
    have hasdus : ∀ point ∈ window, point ∈ sequences.flatten.map pointOf := by
      intro point hpoint
      rw [← hpoints]
      exact List.mem_append_left _ (List.mem_flatten_of_mem hwindow hpoint)
    have hlong := (hwindows window hwindow).1
    exact inRange_of_pointOf hasdus (List.ne_nil_of_length_pos (by omega))
  · rw [hopen]
    exact length_remainder_le (Nat.zero_le _) _
  · rw [hprinted]
    exact hnumbers
  · rw [hcount, hprinted]
    exact hnext

/-! ## The run -/

/-- Without an exception no sequence was empty, since an empty one is an exception. -/
theorem ne_nil_of_updates {sequences : List (List ASDU)} {v w : Validator}
    (hupdates : forM sequences Validator.update v = .ok () w) :
    ∀ sequence ∈ sequences, sequence ≠ [] := by
  induction sequences generalizing v with
  | nil => exact fun sequence h => absurd h List.not_mem_nil
  | cons head sequences ih =>
      rw [List.forM_cons] at hupdates
      obtain ⟨_, u, hhead, hlater⟩ := bind_eq_ok.mp hupdates
      refine List.forall_mem_cons.mpr ⟨?_, ih hlater⟩
      rintro rfl
      cases hhead

section Run

variable [Bytes.Host] {buffers : List Buffer}

/-- **A run goes on** with the next buffer, as one more iteration: from `run buffers s = .ok () t`,
`run (buffers ++ [got]) s = iteration got t`. -/
theorem run_concat {t : NumberCrusher} (hrun : run buffers s = .ok () t) (got : Buffer) :
    run (buffers ++ [got]) s = iteration got t := by
  rw [run, forM_concat]
  exact bind_of_ok hrun

/-- A run that has stopped does not look at later buffers: its state and its `Stop` stay. -/
theorem run_append_of_error {t : NumberCrusher} {stop : Stop} (hrun : run buffers s = .error stop t)
    (later : List Buffer) : run (buffers ++ later) s = .error stop t := by
  rw [run, List.forM_append]
  exact bind_of_error hrun

/-- **A run** whose sample counts raise no exception crunches all of its sequences. -/
theorem run_of_updates (buffer : Buffer) (hhanded : ∀ b ∈ buffers, Handed b)
    (hupdates : forM (buffers.map sequenceOf) Validator.update Validator.new = .ok () v) :
    ∃ t, run buffers (new buffer) = .ok () t ∧ t.Ready ∧ t.validator = v ∧
      Crunched (buffers.map sequenceOf) t := by
  induction buffers using List.reverseRecOn generalizing v with
  | nil =>
      cases hupdates
      exact ⟨_, rfl, rfl, rfl, crunched_new buffer⟩
  | append_singleton buffers got ih =>
      obtain ⟨hbuffers, hgot⟩ := List.forall_mem_append.mp hhanded
      rw [List.map_append, List.map_singleton, forM_concat] at hupdates
      obtain ⟨_, u, hbefore, hupdate⟩ := bind_eq_ok.mp hupdates
      -- the handler is behind all buffers but the last one, which is one more iteration
      obtain ⟨s, hrun, hready, hvalidator, hcrunched⟩ := ih hbuffers hbefore
      rw [← hvalidator] at hupdate
      obtain ⟨left, t, hiteration⟩ :=
        iteration_ok hready (List.forall_mem_singleton.mp hgot) hupdate
      refine ⟨_, (run_concat hrun got).trans hiteration, ?_, ?_, ?_⟩
      · rw [Ready, parser_crunch]
      · rw [validator_crunch]
      · rw [List.map_append, List.map_singleton]
        exact hcrunched.crunch (sequenceOf got) rfl rfl rfl

/-- **A run** to an exception: the sequence that raised it is lost, and nothing is printed for
it. -/
theorem run_of_violation (buffer : Buffer) {got : Buffer} (later : List Buffer)
    (hhanded : ∀ b ∈ buffers ++ [got], Handed b)
    (hupdates : forM (buffers.map sequenceOf) Validator.update Validator.new = .ok () v)
    {w : Validator} (hupdate : Validator.update (sequenceOf got) v = .error message w) :
    ∃ t, run (buffers ++ got :: later) (new buffer) = .error (.exception message) t ∧
      Crunched (buffers.map sequenceOf) t := by
  obtain ⟨hbuffers, hgot⟩ := List.forall_mem_append.mp hhanded
  obtain ⟨s, hrun, hready, rfl, hcrunched⟩ := run_of_updates buffer hbuffers hupdates
  obtain ⟨left, t, hiteration⟩ := iteration_error hready (List.forall_mem_singleton.mp hgot) hupdate
  have hstops := run_append_of_error ((run_concat hrun got).trans hiteration) later
  rw [List.append_assoc, List.singleton_append] at hstops
  exact ⟨_, hstops, hcrunched.points, hcrunched.printed⟩

/-! ## The output -/

/-- What has been printed when a run ends, also when it ends with an exception. -/
def output (r : EStateM.Result Stop NumberCrusher Unit) : List Binary32.Report := (endState r).printed

/-- An iteration takes nothing back, wherever it ends: `s.printed <+: output (iteration got s)`. -/
theorem printed_iteration (got : Buffer) (s : NumberCrusher) :
    s.printed <+: output (iteration got s) := by
  have hwp : wp (iteration got) (fun _ t => s.printed <+: t.printed)
      (fun _ t => s.printed <+: t.printed) s := by
    rw [iteration, wp_bind]
    show wp _ _ _ { s with buffer := got }
    rw [wp_bind, parse, wp_adaptExcept, wp_zoom]
    apply wp_of_forall
    · intro sequence p
      rw [wp_bind, update, wp_adaptExcept, wp_zoom]
      apply wp_of_forall
      · intro _ v
        -- only the last part of an iteration prints
        show s.printed <+: (NumberCrusher.crunch _).printed
        rw [crunch]
        split
        · exact List.prefix_append ..
        · exact List.prefix_refl _
      · exact fun _ _ => List.prefix_refl _
    · exact fun _ _ => List.prefix_refl _
  exact wp_endState.mp hwp

/-- **A run** takes nothing back: what a beginning of it prints is the beginning of its output. -/
theorem output_run_append (s : NumberCrusher) (later : List Buffer) :
    output (run buffers s) <+: output (run (buffers ++ later) s) := by
  induction later using List.reverseRecOn with
  | nil => rw [List.append_nil]
  | append_singleton later last ih =>
      rw [← List.append_assoc]
      refine ih.trans ?_
      cases hrun : run (buffers ++ later) s with
      | ok _ t =>
          rw [run_concat hrun]
          exact printed_iteration last t
      | error stop t => rw [run_append_of_error hrun]

/-! ## Valid buffers -/

/-- Buffers are **valid** when each has an ASDU and every sample count may come next. -/
structure Valid (buffers : List Buffer) : Prop where
  /-- No buffer is without ASDUs. -/
  nonempty : ∀ buffer ∈ buffers, sequenceOf buffer ≠ []
  /-- The sample counts: each of them may come behind the one before it. -/
  succeeds : ((buffers.flatMap sequenceOf).map ASDU.smpCnt).IsChain Validator.Succeeds

/-- The updates with sequences that are not empty are checks count by count. -/
theorem forM_update_sequenceOf (hnonempty : ∀ buffer ∈ buffers, sequenceOf buffer ≠ []) :
    forM (buffers.map sequenceOf) Validator.update
      = forM ((buffers.flatMap sequenceOf).map ASDU.smpCnt) Validator.validate := by
  rw [Validator.forM_update (List.forall_mem_map.mpr hnonempty), List.flatMap_def]

/-- **The updates** raise no exception when the buffers are valid, and only then. -/
theorem updates_ok_iff :
    (∃ w, forM (buffers.map sequenceOf) Validator.update Validator.new = .ok () w)
      ↔ Valid buffers := by
  constructor
  · rintro ⟨w, hupdates⟩
    have hnonempty := List.forall_mem_map.mp (ne_nil_of_updates hupdates)
    rw [forM_update_sequenceOf hnonempty] at hupdates
    exact ⟨hnonempty, (Validator.feed_ok_iff rfl rfl _).mp ⟨w, hupdates⟩⟩
  · rintro ⟨hnonempty, hsucceeds⟩
    rw [forM_update_sequenceOf hnonempty]
    exact (Validator.feed_ok_iff rfl rfl _).mpr hsucceeds

/-- What an exception says: a buffer has no ASDU, or a sample count may not come next. -/
def complaint (got : Buffer) : String :=
  if sequenceOf got = [] then "Incorrect sequence of ASDU received" else "Packet missed"

/-- **The first violation** behind valid buffers is an exception, with the text `complaint got`. -/
theorem update_of_violation (hvalid : Valid buffers) {got : Buffer}
    (hviolation : ¬Valid (buffers ++ [got]))
    (hupdates : forM (buffers.map sequenceOf) Validator.update Validator.new = .ok () v) :
    ∃ w, Validator.update (sequenceOf got) v = .error (complaint got) w := by
  by_cases hempty : sequenceOf got = []
  · rw [complaint, if_pos hempty, hempty]
    exact ⟨v, rfl⟩
  · have hnonempty : ∀ b ∈ buffers ++ [got], sequenceOf b ≠ [] :=
      List.forall_mem_append.mpr ⟨hvalid.nonempty, List.forall_mem_singleton.mpr hempty⟩
    have hbreaks := mt (Valid.mk hnonempty) hviolation
    -- the counts of all buffers have a first violation
    obtain ⟨first, before, last, next, rest, hcounts, hlast, hsucceeds, hnext⟩ :=
      Validator.exists_first_violation hbreaks
    have hall : forM ((buffers ++ [got]).map sequenceOf) Validator.update Validator.new
        = .error "Packet missed"
            { Validator.accepted .new last with state := .incorrect } := by
      rw [forM_update_sequenceOf hnonempty, hcounts, Validator.feed_first rfl rfl,
        Validator.feed_stops rfl hlast hsucceeds hnext]
    rw [List.map_append, List.map_singleton, forM_concat, bind_of_ok hupdates] at hall
    rw [complaint, if_neg hempty]
    exact ⟨_, hall⟩

/-- No buffers are valid: `Valid []`, the start of the inductions over the buffers. -/
theorem valid_nil : Valid [] := ⟨fun _ h => absurd h List.not_mem_nil, .nil⟩

/-- The sequences of buffers that were handed over have at most 88 ASDUs. -/
theorem length_sequenceOf_le (hhanded : ∀ b ∈ buffers, Handed b) :
    ∀ sequence ∈ buffers.map sequenceOf, sequence.length ≤ maxASDUs :=
  List.forall_mem_map.mpr fun b hb => (parse_handed (hhanded b hb) 0).2

/-- **The outcome of a run**: the longest valid beginning of the buffers is crunched; if a buffer is
left, it raises an exception, and nothing of it or of later ones is printed or kept. -/
theorem run_outcome (buffer : Buffer) (hhanded : ∀ b ∈ buffers, Handed b) :
    ∃ crunched t windows, Valid crunched ∧ Ledger (crunched.map sequenceOf) t windows ∧
      (crunched = buffers ∧ run buffers (new buffer) = .ok () t ∨
        ∃ got later, buffers = crunched ++ got :: later ∧ ¬Valid (crunched ++ [got]) ∧
          run buffers (new buffer) = .error (.exception (complaint got)) t) := by
  by_cases hvalid : Valid buffers
  · obtain ⟨v, hupdates⟩ := updates_ok_iff.mpr hvalid
    obtain ⟨t, hrun, -, -, hcrunched⟩ := run_of_updates buffer hhanded hupdates
    exact ⟨buffers, t, _, hvalid, hcrunched.ledger (length_sequenceOf_le hhanded), .inl ⟨rfl, hrun⟩⟩
  · -- the first buffer that is not valid behind the others ends the run
    obtain ⟨before, got, later, rfl, hbefore, hviolation⟩ := exists_first_loss valid_nil hvalid
    have hbegin : ∀ b ∈ before ++ [got], Handed b := by
      intro b hb
      apply hhanded
      rw [← List.singleton_append, ← List.append_assoc]
      exact List.mem_append_left later hb
    obtain ⟨v, hupdates⟩ := updates_ok_iff.mpr hbefore
    obtain ⟨w, hupdate⟩ := update_of_violation hbefore hviolation hupdates
    obtain ⟨t, hrun, hcrunched⟩ := run_of_violation buffer later hbegin hupdates hupdate
    have hlengths := length_sequenceOf_le (List.forall_mem_append.mp hbegin).1
    exact ⟨before, t, _, hbefore, hcrunched.ledger hlengths, .inr ⟨got, later, rfl, hviolation, hrun⟩⟩

/-- **From the engine to the printer**: whatever waits at the socket, the outcome of the handler on
the buffers that the engine hands over. -/
theorem outcome (data : Vector UInt8 bufferSize) (waiting : List (Option (List UInt8)))
    (buffer : Buffer) :
    ∃ crunched t windows, Valid crunched ∧ Ledger (crunched.map sequenceOf) t windows ∧
      (crunched = BPFEngine.run (constructed data) waiting ∧
          run (BPFEngine.run (constructed data) waiting) (new buffer) = .ok () t ∨
        ∃ got later, BPFEngine.run (constructed data) waiting = crunched ++ got :: later ∧
          ¬Valid (crunched ++ [got]) ∧
          run (BPFEngine.run (constructed data) waiting) (new buffer)
            = .error (.exception (complaint got)) t) :=
  run_outcome buffer (handed_run data waiting)

end Run

end NumberCrusher

end IecCore

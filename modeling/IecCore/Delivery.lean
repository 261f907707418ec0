import IecCore.Engines.BpfEngine
import IecCore.Iec.StandAlone
import IecCore.Iec.Truncation
import IecCore.Utils.BlockingFifo

/-! # Delivery from the socket to the parser

The engine fills buffers with frames, the blocking exchange hands them over, and the handler parses
one after the other. Frames are lost on this way only at the end of a buffer: the last frame of a
batch may be longer than what is left of it, and the last byte of the array is never read.

* **`parseBuffers parser buffers`** — the calls of `parse` in the loop of the handler.
* **`Intact batch`** — a batch fits the bytes that a buffer can read, but for fields that are zero
  anyway.
* **`parse_batch`** — a buffer that holds a batch is parsed to its ASDUs when the batch is intact,
  and to no more of them otherwise; **`parseBuffers_batches`** says so of all buffers.
* **`HandedOver handed got`** — the buffers that the handler gets are those that the engine sets, in
  some run of the exchange (`HandedOver.eq`).
* **`delivered_iff`** — what arrives is what was received when all batches are intact;
  **`sixth_frame_cut`** is a batch that is not. -/

namespace IecCore

open BPFEngine Iec

/-- The calls of `parse` in the loop of the handler, for the buffers that it gets. -/
def parseBuffers [Bytes.Host] : IecParser → List Buffer → Except Fault (List (List ASDU))
  | _, [] => .ok []
  | parser, buffer :: buffers =>
      match IecParser.parse { parser, buffer } with
      | .ok sequence s => (parseBuffers s.parser buffers).map (sequence :: ·)
      | .error fault _ => .error fault

/-- A batch is **intact** when it leaves a byte of the buffer free, or when only data units of its
last ASDU reach the last byte, and their fields that do are zero. -/
def Intact (batch : List (List UInt8)) : Prop :=
  batch.flatten.length < bufferSize ∨
    batch.flatten.length < bufferSize + 64 ∧
      CutFieldsZero batch.flatten (bufferSize - 1) (batch.flatten.length - 64)

instance (batch : List (List UInt8)) : Decidable (Intact batch) :=
  inferInstanceAs (Decidable (_ ∨ _ ∧ _))

/-! ## One batch -/

/-- Accepted frames as frames of the grammar, whose encodings are their bytes. -/
theorem exists_frames [Bytes.Host] {batch : List (List UInt8)}
    (haccepted : ∀ frame ∈ batch, AcceptedAlone frame) :
    ∃ frames : List SvFrame, (∀ frame ∈ frames, frame.pdu.Congruent) ∧
      batch.flatten = frames.flatMap SvFrame.encode ∧
      batch.flatMap asdusAlone = frames.flatMap fun frame => frame.pdu.values := by
  induction batch with
  | nil => exact ⟨[], by simp, rfl, rfl⟩
  | cons frame batch ih =>
      obtain ⟨hframe, hbatch⟩ := List.forall_mem_cons.mp haccepted
      obtain ⟨frames, hframes, hflatten, hvalues⟩ := ih hbatch
      obtain ⟨f, hf, rfl⟩ := acceptedAlone_iff.mp hframe
      refine ⟨f :: frames, List.forall_mem_cons.mpr ⟨hf, hframes⟩, ?_, ?_⟩
      · rw [List.flatten_cons, hflatten, List.flatMap_cons]
      · rw [List.flatMap_cons, hvalues, List.flatMap_cons, asdusAlone_encode hf]

/-- **One batch.** A buffer that holds a batch of accepted frames is parsed to the ASDUs of the
frames when the batch is intact; otherwise ASDUs are missing or altered. -/
theorem parse_batch [Bytes.Host] {buffer : Buffer} {batch init : List (List UInt8)}
    {last : List UInt8} (hholds : Holds buffer batch) (hbatch : batch = init ++ [last])
    (hroom : init.flatten.length + handOverBelow ≤ bufferSize)
    (haccepted : ∀ frame ∈ batch, AcceptedAlone frame) (internalFrameLength : UInt16) :
    ∃ sequence left t, IecParser.parse
        { parser := { sequence := [], internalFrameLength }, buffer := buffer }
      = .ok sequence { parser := { sequence := [], internalFrameLength := left }, buffer := t } ∧
      sequence.length ≤ (batch.flatMap asdusAlone).length ∧
      (sequence = batch.flatMap asdusAlone ↔ Intact batch) := by
  have hsize : bufferSize = 8192 := rfl
  have hbelow : handOverBelow = 800 := rfl
  by_cases hfits : batch.flatten.length < bufferSize
  · -- everything can be read
    obtain ⟨frames, hframes, hflatten, hvalues⟩ := exists_frames haccepted
    obtain ⟨hcontents, hwritten⟩ := hholds.of_fits hfits
    rw [hflatten] at hcontents hwritten
    obtain ⟨left, hparse⟩ := parse_frames hframes hcontents hholds.offset hwritten
      (by rw [← hflatten]; exact hfits) internalFrameLength
    rw [hvalues]
    exact ⟨_, left, _, hparse, le_refl _, iff_of_true rfl (.inl hfits)⟩
  · -- the last frame is cut before the last byte of the buffer
    rw [hbatch, List.forall_mem_append] at haccepted
    obtain ⟨frames, hframes, hflatten, hvalues⟩ := exists_frames haccepted.1
    obtain ⟨f, hf, hlast⟩ := acceptedAlone_iff.mp (haccepted.2 last (List.mem_singleton_self _))
    have hfull : batch.flatten = frames.flatMap SvFrame.encode ++ f.encode := by
      rw [hbatch, List.flatten_append, List.flatten_singleton, hflatten, hlast]
    have hexpected : batch.flatMap asdusAlone
        = (frames.flatMap fun frame => frame.pdu.values) ++ f.pdu.values := by
      rw [hbatch, List.flatMap_append, List.flatMap_singleton, hvalues, ← hlast,
        asdusAlone_encode hf]
    obtain ⟨hreadable, hwritten⟩ := hholds.of_full (Nat.not_lt.mp hfits)
    have hcount := length_le_length_flatMap frames
    rw [← hflatten] at hcount
    have hhead : (frames.flatMap SvFrame.encode).length + 37 ≤ bufferSize - 1 := by
      rw [← hflatten]
      omega
    obtain ⟨asdus, stop, hscan, hlength, hiff⟩ := framesScan_cut hframes hf hfull hhead (by omega)
      (bufferSize - 1 - frames.length)
    have hfuel : frames.length + (bufferSize - 1 - frames.length + 1 + 1)
        = buffer.written.toNat + 1 := by omega
    have hend : bufferSize - 1 + 1 = buffer.written.toNat := by omega
    rw [← hreadable, hfuel, hend] at hscan
    obtain ⟨left, hparse⟩ := IecParser.parse_start hholds.offset (by omega) []
      internalFrameLength hscan
    refine ⟨_, left, _, hparse, ?_, ?_⟩
    · rw [hexpected, List.nil_append, List.length_append, List.length_append]
      omega
    · rw [hexpected, List.nil_append, List.append_cancel_left_eq, hiff, Intact]
      have hle : batch.flatten.length ≤ bufferSize - 1 + 64
          ↔ batch.flatten.length < bufferSize + 64 := by omega
      rw [hle]
      exact ⟨.inr, fun hintact => hintact.resolve_left hfits⟩

/-! ## All batches -/

/-- Lists of which none is longer than its counterpart, joined, are the counterparts, joined, only
when each is its counterpart. -/
theorem flatten_eq_flatMap_iff {α β : Type} {f : β → List α} {P : β → Prop} {xs : List (List α)}
    {bs : List β} (h : List.Forall₂ (fun x b => x.length ≤ (f b).length ∧ (x = f b ↔ P b)) xs bs) :
    xs.flatten.length ≤ (bs.flatMap f).length ∧
      (xs.flatten = bs.flatMap f ↔ ∀ b ∈ bs, P b) := by
  induction h with
  | nil => exact ⟨le_refl _, iff_of_true rfl (by simp)⟩
  | @cons x b xs bs hhead _ ih =>
      obtain ⟨hlength, hiff⟩ := ih
      rw [List.flatten_cons, List.flatMap_cons, List.forall_mem_cons, ← hiff, ← hhead.2]
      refine ⟨?_, fun heq => ?_, fun heq => by rw [heq.1, heq.2]⟩
      · rw [List.length_append, List.length_append]
        omega
      · have hsum := congrArg List.length heq
        rw [List.length_append, List.length_append] at hsum
        exact List.append_inj heq (by omega)

/-- **All batches.** The buffers that hold batches of accepted frames are parsed one after the
other, each with the counter that the one before has left. -/
theorem parseBuffers_batches [Bytes.Host] {buffers : List Buffer}
    {groups : List (List (List UInt8))} (hholds : List.Forall₂ Holds buffers groups)
    (hgroups : ∀ batch ∈ groups, (∀ frame ∈ batch, AcceptedAlone frame) ∧
      ∃ init last, batch = init ++ [last] ∧ init.flatten.length + handOverBelow ≤ bufferSize)
    (internalFrameLength : UInt16) :
    ∃ sequences, parseBuffers { sequence := [], internalFrameLength } buffers = .ok sequences ∧
      List.Forall₂ (fun sequence batch => sequence.length ≤ (batch.flatMap asdusAlone).length ∧
        (sequence = batch.flatMap asdusAlone ↔ Intact batch)) sequences groups := by
  induction hholds generalizing internalFrameLength with
  | nil => exact ⟨[], rfl, .nil⟩
  | @cons buffer batch buffers groups hbuffer _ ih =>
      obtain ⟨⟨haccepted, init, last, hbatch, hroom⟩, hlater⟩ := List.forall_mem_cons.mp hgroups
      obtain ⟨sequence, left, t, hparse, houtcome⟩ :=
        parse_batch hbuffer hbatch hroom haccepted internalFrameLength
      -- a call leaves no ASDUs in the parser, so that the next one begins as the first did
      obtain ⟨sequences, hrest, houtcomes⟩ := ih hlater left
      refine ⟨sequence :: sequences, ?_, .cons houtcome houtcomes⟩
      rw [parseBuffers, hparse]
      show (parseBuffers { sequence := [], internalFrameLength := left } buffers).map _ = _
      rw [hrest]
      rfl

/-- **From the engine to the parser.** The buffers that the engine hands over are parsed to the
ASDUs of the frames received up to the last hand-over when all batches are intact. -/
theorem parseBuffers_run_iff [Bytes.Host] (data : Vector UInt8 bufferSize)
    {waiting : List (Option (List UInt8))}
    (haccepted : ∀ frame ∈ waiting.reduceOption, AcceptedAlone frame) :
    (∃ sequences, parseBuffers IecParser.new (run (constructed data) waiting) = .ok sequences ∧
      sequences.flatten = (batches [] waiting.reduceOption).flatten.flatMap asdusAlone) ↔
      ∀ batch ∈ batches [] waiting.reduceOption, Intact batch := by
  have hholds : List.Forall₂ Holds (run (constructed data) waiting)
      (batches [] waiting.reduceOption) := run_holds (holds_nil rfl rfl) (by decide) waiting
  -- every batch has room for the next frame before its last one, which is what the engine tests
  have hgroups : ∀ batch ∈ batches [] waiting.reduceOption,
      (∀ frame ∈ batch, AcceptedAlone frame) ∧ ∃ init last, batch = init ++ [last] ∧
        init.flatten.length + handOverBelow ≤ bufferSize := by
    intro batch hmem
    obtain ⟨hframes, init, last, hbatch, hroom, -⟩ := batches_spec (by decide) batch hmem
    exact ⟨fun frame hframe => haccepted frame (hframes frame hframe), init, last, hbatch, hroom⟩
  obtain ⟨sequences, hparse, houtcomes⟩ := parseBuffers_batches hholds hgroups 0
  have hnew : parseBuffers IecParser.new (run (constructed data) waiting) = .ok sequences := hparse
  rw [← (flatten_eq_flatMap_iff houtcomes).2, ← List.flatMap_id, List.flatMap_assoc]
  constructor
  · rintro ⟨sequences', hparse', heq⟩
    rw [hnew] at hparse'
    cases hparse'
    exact heq
  · exact fun heq => ⟨sequences, hnew, heq⟩

/-! ## Through the exchange -/

open ValueExchangeBlocking in
/-- The handler has **got** all the buffers that the engine handed over: a run of the exchange in
which the engine calls `set` with them, the handler calls `get` until it has as many, and nobody
calls `reset`. -/
def HandedOver (handed got : List Buffer) : Prop :=
  ∃ storage as s, (blocking storage).Along NoReset (blocking storage).init as ∧
    (blocking storage).run (blocking storage).init as = some s ∧ s.given = handed ∧
    s.returned = got ∧ got.length = handed.length

/-- The exchange changes none of the buffers and not their order. -/
theorem HandedOver.eq {handed got : List Buffer} (h : HandedOver handed got) : got = handed := by
  obtain ⟨storage, as, s, hno, hrun, rfl, rfl, hlength⟩ := h
  exact (ValueExchangeBlocking.fifo_returned hno hrun).eq_of_length hlength

open ValueExchangeBlocking in
/-- A run in which the engine sets a buffer and the handler gets it. -/
def handOverOnce (buffer : Buffer) : List (Action Buffer) :=
  List.flatten [[.set buffer], List.replicate 6 (.advance .producer), [.get],
    List.replicate 6 (.advance .consumer)]

open ValueExchangeBlocking in
/-- One buffer is handed over by this run, whatever it holds: `HandedOver [buffer] [buffer]`. -/
theorem handedOver_singleton (buffer : Buffer) : HandedOver [buffer] [buffer] := by
  have hno : (blocking buffer).Along NoReset (blocking buffer).init (handOverOnce buffer) :=
    (blocking buffer).along_of_forall _ fun a ha first heq => by simp [handOverOnce, heq] at ha
  exact ⟨buffer, handOverOnce buffer, _, hno, rfl, rfl, rfl, rfl⟩

/-- **Delivery.** For frames of at most 1514 bytes, each accepted alone, what `parse` returns for
the buffers handed over is the ASDUs of the frames received up to the last hand-over, in order,
exactly when all batches are intact. -/
theorem delivered_iff [Bytes.Host] (data : Vector UInt8 bufferSize)
    (waiting : List (Option (List UInt8)))
    (haccepted : ∀ frame ∈ waiting.reduceOption, frame.length ≤ 1514 ∧ AcceptedAlone frame)
    {got : List Buffer} (hgot : HandedOver (run (constructed data) waiting) got) :
    (∃ sequences, parseBuffers IecParser.new got = .ok sequences ∧
      sequences.flatten = (batches [] waiting.reduceOption).flatten.flatMap asdusAlone) ↔
      ∀ batch ∈ batches [] waiting.reduceOption, Intact batch := by
  rw [hgot.eq]
  exact parseBuffers_run_iff data fun frame hmem => (haccepted frame hmem).2

/-- A frame with ASDUs whose svIDs have 34 bytes, the longest that are accepted. -/
def longFrame (count : Nat) (hcount : 1 ≤ count ∧ count ≤ 16) : SvFrame where
  etherHeader := sampleFrame.etherHeader
  pdu :=
    { appID := 0x4000, res1 := 0, res2 := 0
      savLength := .long (beBytes 2 (7 + 117 * count)) (by simp)
      seqLength := .long (beBytes 2 (117 * count)) (by simp)
      asdus := List.replicate count
        { svId := List.replicate 34 0
          asdu :=
            { smpCnt := 0, smpSynch := 1, confRev := 1
              data := Vector.replicate unitsPerASDU { instMagI := 1, quality := 0, bitset := 0 } }
          length_svId := by decide }
      count := by rwa [List.length_replicate] }
  length_etherHeader := sampleFrame.length_etherHeader

/-- The sizes of a long frame, by the number of its ASDUs: 117 bytes for each, and 33 for all that
stands in front of them. -/
theorem length_longFrame (count : Nat) (hcount : 1 ≤ count ∧ count ≤ 16) :
    (longFrame count hcount).pdu.asduBytes.length = 117 * count ∧
      (longFrame count hcount).pdu.savBytes.length = 7 + 117 * count ∧
      (longFrame count hcount).encode.length = 33 + 117 * count := by
  have hasdus : (longFrame count hcount).pdu.asduBytes.length = 117 * count := by
    simp only [SvPdu.asduBytes, longFrame, List.length_flatMap, List.map_replicate,
      SvAsdu.length_encode, List.length_replicate, List.sum_replicate_nat]
    omega
  have hsav : (longFrame count hcount).pdu.savLength.encode.length = 3 := rfl
  have hseq : (longFrame count hcount).pdu.seqLength.encode.length = 3 := rfl
  obtain ⟨hsavBytes, hlength, -, -⟩ := (longFrame count hcount).pdu.length_bounds
  have hframe := (longFrame count hcount).length_encode
  omega

/-- A long frame is accepted when it stands alone: its lengths are exact, and its svIDs have 34
bytes. -/
theorem acceptedAlone_longFrame [Bytes.Host] (count : Nat) (hcount : 1 ≤ count ∧ count ≤ 16) :
    AcceptedAlone (longFrame count hcount).encode := by
  obtain ⟨hasdus, hsav, -⟩ := length_longFrame count hcount
  have hpow : 256 ^ 2 = 65536 := by decide
  refine acceptedAlone_iff.mpr ⟨_, SvPdu.Exact.congruent ⟨?_, ?_⟩, rfl⟩
  · rw [hsav]
    show beNat (beBytes 2 (7 + 117 * count)) = _
    rw [beNat_beBytes]
    omega
  · rw [hasdus]
    show beNat (beBytes 2 (117 * count)) = _
    rw [beNat_beBytes]
    omega

/-- Five frames with twelve ASDUs each and one more, received one after the other. -/
def sixFrames (count : Nat) (hcount : 1 ≤ count ∧ count ≤ 16) : List (List UInt8) :=
  List.replicate 5 (longFrame 12 (by decide)).encode ++ [(longFrame count hcount).encode]

/-- The six frames are what is received, one in each iteration: no iteration finds the socket
empty. -/
theorem reduceOption_map_some (frames : List (List UInt8)) :
    (frames.map some).reduceOption = frames := by
  rw [List.reduceOption, List.filterMap_map, Function.id_comp, List.filterMap_some]

/-- The sizes of the six frames: five of them leave room for 800 bytes and more. -/
theorem length_sixFrames (count : Nat) (hcount : 1 ≤ count ∧ count ≤ 16) :
    (List.replicate 5 (longFrame 12 (by decide)).encode).flatten.length = 7185 ∧
      (sixFrames count hcount).flatten.length = 7218 + 117 * count := by
  have htwelve := (length_longFrame 12 (by decide)).2.2
  have hlast := (length_longFrame count hcount).2.2
  have hfive : (List.replicate 5 (longFrame 12 (by decide)).encode).flatten.length = 7185 := by
    rw [List.length_flatten, List.map_replicate, List.sum_replicate_nat, htwelve]
  refine ⟨hfive, ?_⟩
  rw [sixFrames, List.flatten_append, List.length_append, hfive, List.flatten_singleton, hlast]
  omega

/-- The six frames are one batch, when the last of them has four ASDUs or more. -/
theorem batches_sixFrames (count : Nat) (hcount : 4 ≤ count ∧ count ≤ 16) :
    batches [] ((sixFrames count (by omega)).map some).reduceOption
      = [sixFrames count (by omega)] := by
  obtain ⟨hfive, hall⟩ := length_sixFrames count (by omega)
  have hbelow : handOverBelow = 800 := rfl
  have hsize : bufferSize = 8192 := rfl
  rw [reduceOption_map_some, sixFrames]
  refine batches_append_singleton ?_ ?_
  · rw [List.nil_append, hfive]
    decide
  · rw [List.nil_append, ← sixFrames, hall]
    omega

/-- The six frames are accepted, and no longer than an Ethernet frame may be. -/
theorem acceptedAlone_sixFrames [Bytes.Host] (count : Nat) (hcount : 1 ≤ count ∧ count ≤ 12) :
    ∀ frame ∈ ((sixFrames count (by omega)).map some).reduceOption,
      frame.length ≤ 1514 ∧ AcceptedAlone frame := by
  have hframe : ∀ n hn, n ≤ 12 → (longFrame n hn).encode.length ≤ 1514 ∧
      AcceptedAlone (longFrame n hn).encode := fun n hn hle =>
    ⟨by rw [(length_longFrame n hn).2.2]; omega, acceptedAlone_longFrame n hn⟩
  rw [reduceOption_map_some, sixFrames, List.forall_mem_append]
  refine ⟨fun frame hmem => ?_, fun frame hmem => ?_⟩
  · rw [List.eq_of_mem_replicate hmem]
    exact hframe _ _ (le_refl _)
  · rw [List.mem_singleton.mp hmem]
    exact hframe _ _ hcount.2

/-- The six frames are handed over in one buffer: there is a `got` with `HandedOver` of it. -/
theorem handedOver_sixFrames (count : Nat) (hcount : 4 ≤ count ∧ count ≤ 16) :
    ∃ got, HandedOver (run (constructed (Vector.replicate bufferSize 0))
      ((sixFrames count (by omega)).map some)) got := by
  have hholds : List.Forall₂ Holds (run (constructed (Vector.replicate bufferSize 0))
      ((sixFrames count (by omega)).map some)) (batches [] _) :=
    run_holds (holds_nil rfl rfl) (by decide) _
  rw [batches_sixFrames count hcount] at hholds
  obtain ⟨buffer, rest, -, hrest, hrun⟩ := List.forall₂_cons_right_iff.mp hholds
  rw [List.forall₂_nil_right_iff] at hrest
  rw [hrun, hrest]
  exact ⟨[buffer], handedOver_singleton buffer⟩

/-- Five frames with twelve ASDUs and one with six are handed over together, and arrive. -/
theorem delivered_iff_six :
    ∃ got, HandedOver (run (constructed (Vector.replicate bufferSize 0))
        ((sixFrames 6 (by decide)).map some)) got ∧
      ∃ sequences, @parseBuffers ⟨.littleEndian⟩ IecParser.new got = .ok sequences ∧
        sequences.flatten
          = (batches [] ((sixFrames 6 (by decide)).map some).reduceOption).flatten.flatMap
            (@asdusAlone ⟨.littleEndian⟩) := by
  obtain ⟨got, hgot⟩ := handedOver_sixFrames 6 (by decide)
  refine ⟨got, hgot, (@delivered_iff ⟨.littleEndian⟩ _ _
    (@acceptedAlone_sixFrames ⟨.littleEndian⟩ 6 (by decide)) got hgot).mpr ?_⟩
  rw [batches_sixFrames 6 (by decide), List.forall_mem_singleton]
  left
  rw [(length_sixFrames 6 (by decide)).2]
  decide

/-- Six frames with twelve ASDUs, of 1437 bytes each: the sixth is cut, and what is parsed is not
what was received. -/
theorem sixth_frame_cut :
    ∃ got, (∀ frame ∈ ((sixFrames 12 (by decide)).map some).reduceOption,
        frame.length ≤ 1514 ∧ @AcceptedAlone ⟨.littleEndian⟩ frame) ∧
      HandedOver (run (constructed (Vector.replicate bufferSize 0))
        ((sixFrames 12 (by decide)).map some)) got ∧
      ¬ ∃ sequences, @parseBuffers ⟨.littleEndian⟩ IecParser.new got = .ok sequences ∧
        sequences.flatten
          = (batches [] ((sixFrames 12 (by decide)).map some).reduceOption).flatten.flatMap
            (@asdusAlone ⟨.littleEndian⟩) := by
  have haccepted := @acceptedAlone_sixFrames ⟨.littleEndian⟩ 12 (by decide)
  obtain ⟨got, hgot⟩ := handedOver_sixFrames 12 (by decide)
  refine ⟨got, haccepted, hgot, ?_⟩
  rw [hgot.eq, @parseBuffers_run_iff ⟨.littleEndian⟩ _ _ fun frame hmem => (haccepted frame hmem).2,
    batches_sixFrames 12 (by decide), List.forall_mem_singleton, Intact,
    (length_sixFrames 12 (by decide)).2]
  -- the batch neither leaves a byte free nor ends with data units that are cut
  rintro (hfits | ⟨hcut, -⟩)
  · exact absurd hfits (by decide)
  · exact absurd hcut (by decide)

end IecCore

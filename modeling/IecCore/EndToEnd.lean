import IecCore.PipelineRun

/-! # From the frames to the reports

The results on batches, on delivery and on the run of the program, put together: what is printed for
frames that the parser accepts, when the batches they are received in are intact. The only thing that
can go wrong then is a sample count: no frame is rejected, and no batch is without ASDUs.

* **`outcome_of_whole`** — the outcome of a run for buffers that hold batches which arrive whole: the
  ASDUs of the frames are the sequences of the handler (`map_sequenceOf`), and their counts are all
  that the validator asks for.
* **`outcome_of_intact`** — the same in terms of the frames at the socket: the batches up to the
  first bad sample count are crunched, and the one that has it raises `"Packet missed"`. -/

namespace IecCore

open BPFEngine Iec NumberCrusher PipelineRun
open Iec.MergingUnit (squareUnit squareUnit_fits)

/-! ## The result -/

variable {storage buffer : Buffer} {data : Vector UInt8 bufferSize}
  {waiting : List (Option (List UInt8))} {s : PipelineRun.State}

/-- The outcome for batches that arrive whole: every stuck state has the reports of their samples,
up to the first loss. -/
theorem outcome_of_whole [Bytes.Host] {groups : List (List (List UInt8))}
    (hholds : List.Forall₂ Holds (BPFEngine.run (constructed data) waiting) groups)
    (hwhole : Whole groups) (hreach : (pipeline storage buffer data waiting).Reachable s)
    (hstuck : Stuck s) :
    ∃ crunched left t windows, groups = crunched ++ left ∧
      (counts crunched).IsChain Validator.Succeeds ∧ Ledger (crunched.map asdusOf) t windows ∧
      (left = [] ∧ s.handler = .ok () t ∨
        ∃ lost later, left = lost :: later ∧
          ¬(counts (crunched ++ [lost])).IsChain Validator.Succeeds ∧
          s.handler = .error (.exception "Packet missed") t) := by
  have hmap := map_sequenceOf hholds hwhole
  have hne := hwhole.ne_nil
  have hhandler := (invariant_reachable hreach).handler_of_stuck hstuck
  obtain ⟨done, t, windows, hvalid, hledger, ⟨hall, hrun⟩ | ⟨got, rest, hsplit, hviolation, hrun⟩⟩ :=
    run_outcome buffer (handed_run data waiting)
  · subst hall
    refine ⟨groups, [], t, windows, (List.append_nil _).symm,
      (valid_iff hmap hne).mp hvalid, hmap ▸ hledger, .inl ⟨rfl, hhandler.trans hrun⟩⟩
  · rw [hsplit, List.map_append, List.map_cons] at hmap
    -- the same split of the batches
    obtain ⟨crunched, left, hgroups, hcrunched, hleft⟩ := List.map_eq_append_iff.mp hmap.symm
    obtain ⟨lost, later, rfl, hlost, -⟩ := List.map_eq_cons_iff.mp hleft
    rw [hgroups, List.forall_mem_append, List.forall_mem_cons] at hne
    obtain ⟨hnecrunched, hnelost, -⟩ := hne
    have hboth : (done ++ [got]).map sequenceOf = (crunched ++ [lost]).map asdusOf := by
      rw [List.map_append, List.map_append, hcrunched, List.map_singleton, List.map_singleton, hlost]
    have hneboth : ∀ batch ∈ crunched ++ [lost], asdusOf batch ≠ [] :=
      List.forall_mem_append.mpr ⟨hnecrunched, List.forall_mem_singleton.mpr hnelost⟩
    have hcomplaint : complaint got = "Packet missed" := by
      rw [complaint, ← hlost, if_neg hnelost]
    rw [hcomplaint] at hrun
    exact ⟨crunched, lost :: later, t, windows, hgroups,
      (valid_iff hcrunched.symm hnecrunched).mp hvalid, hcrunched ▸ hledger,
      .inr ⟨lost, later, rfl, mt (valid_iff hboth hneboth).mpr hviolation, hhandler.trans hrun⟩⟩

/-- **From the frames to the reports.** When no thread can go on, the batches up to the first one
with a bad sample count are crunched; that one has raised the exception. -/
theorem outcome_of_intact [Bytes.Host]
    (haccepted : ∀ frame ∈ waiting.reduceOption, AcceptedAlone frame)
    (hintact : ∀ batch ∈ batches [] waiting.reduceOption, Intact batch)
    (hreach : (pipeline storage buffer data waiting).Reachable s) (hstuck : Stuck s) :
    ∃ crunched left t windows, batches [] waiting.reduceOption = crunched ++ left ∧
      (counts crunched).IsChain Validator.Succeeds ∧ Ledger (crunched.map asdusOf) t windows ∧
      (left = [] ∧ s.handler = .ok () t ∨
        ∃ lost later, left = lost :: later ∧
          ¬(counts (crunched ++ [lost])).IsChain Validator.Succeeds ∧
          s.handler = .error (.exception "Packet missed") t) :=
  outcome_of_whole (holds_batches data waiting) (whole_batches haccepted hintact) hreach hstuck

/-- The frames of a unit with a square wave: the program ends with a report, and no exception. -/
theorem outcome_of_intact_squareUnit :
    ∃ s, (@pipeline ⟨.littleEndian⟩ zeros zeros zeros.data squareWaiting).Reachable s ∧
      @Stuck ⟨.littleEndian⟩ s ∧ output s.handler ≠ [] ∧
      ∃ crunched left t windows,
        batches [] squareWaiting.reduceOption = crunched ++ left ∧
        (@counts ⟨.littleEndian⟩ crunched).IsChain Validator.Succeeds ∧
        Ledger (crunched.map (@asdusOf ⟨.littleEndian⟩)) t windows ∧
        (left = [] ∧ s.handler = .ok () t ∨
          ∃ lost later, left = lost :: later ∧
            ¬(@counts ⟨.littleEndian⟩ (crunched ++ [lost])).IsChain Validator.Succeeds ∧
            s.handler = .error (.exception "Packet missed") t) := by
  obtain ⟨s, hreach, hstuck, hprinted⟩ := exists_stuck_squareUnit
  have hwhole := (@MergingUnit.batches_of_unit squareUnit ⟨.littleEndian⟩
    squareUnit_fits 40).1
  refine ⟨s, hreach, hstuck, hprinted, @outcome_of_intact zeros zeros zeros.data squareWaiting s
    ⟨.littleEndian⟩ ?_ ?_ hreach hstuck⟩
  · rw [squareWaiting_reduceOption]
    exact fun frame => @MergingUnit.acceptedAlone_of_mem_frames squareUnit ⟨.littleEndian⟩ 40 frame
  · rw [squareWaiting_reduceOption]
    exact @Whole.intact ⟨.littleEndian⟩ _ hwhole

end IecCore

import IecCore.Iec.Locality
import IecCore.Iec.StandAlone

/-! # Malformed frames and their neighbours

`parse` does not use the result of `parsePDU`: after a rejected frame it goes on from the byte where
the rejection happened, and ASDUs stored before it stay. This file says which malformed frames leave
the frames around them undisturbed. The frames are laid out in a buffer one after the other, and a
malformed one does no harm exactly when the loop comes to its end and stores nothing on the way.

* **`Complete frame`** — a frame with as many bytes as its header says.
* **`LaidOut b frames`**, **`Undisturbed b frames`** — frames in a buffer, and the ASDUs of the
  well-formed ones as the result of `parse`.
* **`RejectedAtEnd`**, **`SkippedWhole`** — bytes whose first failed check ends at their last byte,
  and frames made of such pieces.
* **`Finds bytes written position asdus`** — the loop over the frames as a relation, without a number
  of iterations; `undisturbed_iff_finds` reads `Undisturbed` by it.
* **`undisturbed_of_skippedWhole`** — frames made of such pieces leave their neighbours undisturbed.
* **`undisturbed_iff`** — no others do: the probe is `sampleFrame` behind such a frame, and a loop
  that goes past its start finds nothing in it (`finds_behind`).
* **`neighbour_lost`** — a frame with another tag whose neighbour is lost. -/

namespace IecCore

namespace Iec

open IecParser

variable {size : Nat}

/-- A **complete** frame: 14 bytes, followed by exactly as many bytes as the length field of the PDU
says. -/
def Complete (frame : List UInt8) : Prop :=
  18 ≤ frame.length ∧ (u16At frame 16).toNat = frame.length - 14

instance (frame : List UInt8) : Decidable (Complete frame) := inferInstanceAs (Decidable (_ ∧ _))

/-- Frames are **laid out** one after the other from the start of a buffer that was not read. -/
structure LaidOut (b : StaticBuffer size) (frames : List (List UInt8)) : Prop where
  /-- The bytes of the frames are at the start of the array. -/
  contents : frames.flatten <+: b.data.toList
  /-- The offset for reading is at the start. -/
  offset : b.offset = 0
  /-- The offset for writing is behind the frames. -/
  written : b.written.toNat = frames.flatten.length
  /-- The buffer can read all of them. -/
  room : frames.flatten.length < size

/-- The checks of the PDU at a position in their order, up to the one behind which its first ASDU is
stored. Each stands with the position after its last byte. -/
def checksToStore (bytes : List UInt8) (position : Nat) : List (Nat × Bool) :=
  pduChecks bytes position ++ (asduChecks bytes (asdusStart bytes position) ++
    fieldChecks bytes (svIdEnd bytes (asdusStart bytes position)))

/-- The first of some checks that fails, if one does: `none` says that all of them hold. -/
def firstFailed (checks : List (Nat × Bool)) : Option (Nat × Bool) :=
  checks.find? fun check => !check.2

/-- The bytes are **rejected at their end**: of the checks up to the first ASDU, the first one that
fails ends at the last byte. -/
def RejectedAtEnd (frame : List UInt8) : Prop :=
  (firstFailed (checksToStore frame etherHeaderSize)).map Prod.fst = some frame.length

instance (frame : List UInt8) : Decidable (RejectedAtEnd frame) :=
  inferInstanceAs (Decidable (_ = _))

/-- The bytes are made of pieces that are rejected at their end, so that the loop goes over them as
over frames of their own. -/
inductive SkippedWhole : List UInt8 → Prop
  | nil : SkippedWhole []
  | piece {piece rest : List UInt8} (rejected : RejectedAtEnd piece) (skipped : SkippedWhole rest) :
      SkippedWhole (piece ++ rest)

section Calls

variable [Bytes.Host]

/-- The ASDUs of a frame, when it is well formed; a malformed one has none. -/
def wellFormedAsdus (frame : List UInt8) : List ASDU :=
  if AcceptedAlone frame then asdusAlone frame else []

/-- `parse` returns the ASDUs of the well-formed frames, and nothing else, whatever the counter of
the parser was before. -/
def Undisturbed (b : StaticBuffer size) (frames : List (List UInt8)) : Prop :=
  ∀ internalFrameLength, ∃ t,
    parse { parser := { sequence := [], internalFrameLength }, buffer := b }
      = .ok (frames.flatMap wellFormedAsdus) t

end Calls

/-! ## Outcomes without an ASDU -/

/-- Checks end at the first one that fails: `runChecks checks pass = ⟨false, check.1, []⟩`. -/
theorem runChecks_of_firstFailed {checks : List (Nat × Bool)} {pass : Scan} {check : Nat × Bool}
    (h : firstFailed checks = some check) : runChecks checks pass = ⟨false, check.1, []⟩ := by
  induction checks with
  | nil => cases h
  | cons first checks ih =>
      obtain ⟨stop, ok⟩ := first
      rw [runChecks]
      cases ok with
      | false =>
          cases h
          rfl
      | true => exact ih h

/-- Checks none of which fails all hold: `check.2 = true` for every one of them. -/
theorem forall_of_firstFailed {checks : List (Nat × Bool)} (h : firstFailed checks = none) :
    ∀ check ∈ checks, check.2 = true := by
  simpa [firstFailed] using h

/-- Checks behind others are run with the outcome of those: `runChecks` of `checks ++ later` goes
through `later` where `checks` are over. -/
theorem runChecks_append (checks later : List (Nat × Bool)) (pass : Scan) :
    runChecks (checks ++ later) pass = runChecks checks (runChecks later pass) := by
  induction checks with
  | nil => rfl
  | cons check checks ih => rw [List.cons_append, runChecks, runChecks, ih]

/-- **Nothing is stored** exactly when one of the checks up to the first ASDU fails; the first that
does is where the call stops. -/
theorem pduScan_cases (bytes : List UInt8) (position : Nat) :
    (∃ check, firstFailed (checksToStore bytes position) = some check ∧
        pduScan bytes position = ⟨false, check.1, []⟩) ∨
      (firstFailed (checksToStore bytes position) = none ∧
        (pduScan bytes position).asdus ≠ []) := by
  have hfirst : ∀ checks, firstFailed (pduChecks bytes position ++ checks)
      = (firstFailed (pduChecks bytes position)).or (firstFailed checks) :=
    fun _ => List.find?_append
  rw [checksToStore, hfirst]
  cases hpdu : firstFailed (pduChecks bytes position) with
  | some check => exact .inl ⟨check, rfl, runChecks_of_firstFailed hpdu⟩
  | none =>
      rw [Option.none_or]
      have hchecks := forall_of_firstFailed hpdu
      -- one of the checks says that there is an ASDU
      obtain ⟨count, hcount⟩ : ∃ count, seqCountAt bytes position = count + 1 := by
        simp only [pduChecks, List.forall_mem_cons, decide_eq_true_eq] at hchecks
        have hpositive : 1 ≤ seqCountAt bytes position :=
          UInt8.le_iff_toNat_le.mp hchecks.2.2.2.2.2.1.1
        exact ⟨_, (Nat.sub_add_cancel hpositive).symm⟩
      rw [pduScan, runChecks_of_forall hchecks, sequencePass, hcount, asdusScan_succ, asduScan,
        ← runChecks_append]
      generalize asduChecks bytes (asdusStart bytes position) ++
        fieldChecks bytes (svIdEnd bytes (asdusStart bytes position)) = checks
      cases hasdu : firstFailed checks with
      | some check =>
          refine .inl ⟨check, rfl, ?_⟩
          rw [runChecks_of_firstFailed hasdu, if_neg Bool.false_ne_true]
          rfl
      | none =>
          refine .inr ⟨rfl, ?_⟩
          rw [runChecks_of_forall (forall_of_firstFailed hasdu)]
          split
          · exact List.cons_ne_nil _ _
          · exact List.cons_ne_nil _ _

/-- Bytes are rejected at their end when the call stops there, with nothing stored. -/
theorem rejectedAtEnd_iff {frame : List UInt8} :
    RejectedAtEnd frame ↔ pduScan frame etherHeaderSize = ⟨false, frame.length, []⟩ := by
  rcases pduScan_cases frame etherHeaderSize with ⟨check, hfirst, hscan⟩ | ⟨hfirst, hscan⟩
  · rw [RejectedAtEnd, hfirst, hscan, Option.map_some, Option.some_inj, Scan.mk.injEq]
    simp
  · rw [RejectedAtEnd, hfirst]
    constructor
    · intro h
      cases h
    · intro h
      exact absurd (congrArg Scan.asdus h) hscan

/-- A call that stores nothing rejects, since an accepted PDU has an ASDU. -/
theorem pduScan_of_asdus_nil {bytes : List UInt8} {position : Nat}
    (hnil : (pduScan bytes position).asdus = []) :
    pduScan bytes position = ⟨false, (pduScan bytes position).stop, []⟩ := by
  rcases pduScan_cases bytes position with ⟨check, -, hscan⟩ | ⟨-, hscan⟩
  · rw [hscan]
  · exact absurd hnil hscan

/-! ## The loop -/

/-- The loop over the frames of the bytes, up to the written ones, **finds** ASDUs from a position
on. -/
inductive Finds (bytes : List UInt8) (written : Nat) : (position : Nat) → List ASDU → Prop
  | done {position : Nat} (hend : written ≤ position) : Finds bytes written position []
  | more {position : Nat} {scan : Scan} {asdus : List ASDU} (hmore : position < written)
      (hscan : pduScan bytes (position + etherHeaderSize) = scan)
      (hrest : Finds bytes written scan.stop asdus) :
      Finds bytes written position (scan.asdus ++ asdus)

section Finds

variable {bytes rest : List UInt8} {written position stop : Nat} {asdus asdus' : List ASDU}

/-- What the loop returns is found, by induction on the iterations. -/
theorem finds_of_framesScan {fuel : Nat}
    (hscan : framesScan bytes written fuel position = some (asdus, stop)) :
    Finds bytes written position asdus := by
  induction fuel generalizing position asdus with
  | zero => cases hscan
  | succ fuel ih =>
      rw [framesScan] at hscan
      by_cases hmore : position < written
      · rw [if_pos hmore] at hscan
        obtain ⟨⟨found, stop'⟩, hrest, heq⟩ := Option.map_eq_some_iff.mp hscan
        cases heq
        exact .more hmore rfl (ih hrest)
      · rw [if_neg hmore] at hscan
        cases hscan
        exact .done (Nat.not_lt.mp hmore)

/-- The loop finds one list of ASDUs, since each position has one outcome. -/
theorem Finds.unique (h : Finds bytes written position asdus)
    (h' : Finds bytes written position asdus') : asdus = asdus' := by
  induction h generalizing asdus' with
  | done hend =>
      cases h' with
      | done => rfl
      | more hmore => omega
  | more hmore hscan _ ih =>
      cases h' with
      | done => omega
      | more _ hscan' hrest =>
          subst hscan hscan'
          rw [ih hrest]

/-- The loop goes over bytes made of rejected pieces, and finds nothing in them. -/
theorem finds_skippedWhole {frame : List UInt8} (hskipped : SkippedWhole frame)
    (hdrop : bytes.drop position = frame ++ rest) (hwritten : position + frame.length ≤ written)
    (hrest : Finds bytes written (position + frame.length) asdus) :
    Finds bytes written position asdus := by
  induction hskipped generalizing position with
  | nil => exact hrest
  | @piece piece tail rejected _ ih =>
      rw [List.length_append, ← Nat.add_assoc] at hwritten hrest
      rw [List.append_assoc] at hdrop
      have hscan := rejectedAtEnd_iff.mp rejected
      have hbounds := pduScan_stop piece etherHeaderSize
      rw [hscan] at hbounds
      dsimp only at hbounds
      -- the piece is rejected in the buffer as it is alone
      have hmoved : pduScan bytes (position + etherHeaderSize)
          = ⟨false, position + piece.length, []⟩ :=
        pduScan_of_part (a := 0) (x := etherHeaderSize) (List.append_nil _).symm hdrop
          (by rw [Nat.zero_add, Nat.zero_add, hscan]) (le_refl _)
      exact .more (by omega) hmoved (ih (drop_add_of_append hdrop) hwritten hrest)

variable [Bytes.Host]

/-- The loop goes over a well-formed frame, and finds its ASDUs before those of the rest. -/
theorem finds_acceptedAlone {frame : List UInt8} (haccepted : AcceptedAlone frame)
    (hdrop : bytes.drop position = frame ++ rest) (hwritten : position + frame.length ≤ written)
    (hrest : Finds bytes written (position + frame.length) asdus) :
    Finds bytes written position (asdusAlone frame ++ asdus) := by
  obtain ⟨f, hf, rfl⟩ := acceptedAlone_iff.mp haccepted
  have hlength := f.length_encode
  have hpdu := f.pdu.length_encode
  rw [asdusAlone_encode hf]
  rw [SvFrame.encode, List.append_assoc] at hdrop
  have hscan := pduScan_encode hf (drop_add_of_append hdrop)
  rw [f.length_etherHeader] at hscan
  refine .more (by omega) hscan ?_
  rwa [Nat.add_assoc, hpdu, ← hlength]

/-- **The loop** goes over well-formed frames and frames made of rejected pieces, and finds the
ASDUs of the former. -/
theorem finds_frames {frames : List (List UInt8)}
    (hframes : ∀ frame ∈ frames, AcceptedAlone frame ∨ SkippedWhole frame)
    (hdrop : bytes.drop position = frames.flatten ++ rest)
    (hwritten : position + frames.flatten.length = written) :
    Finds bytes written position (frames.flatMap wellFormedAsdus) := by
  induction frames generalizing position with
  | nil => exact .done hwritten.ge
  | cons frame frames ih =>
      rw [List.flatten_cons, List.length_append] at hwritten
      rw [List.flatten_cons, List.append_assoc] at hdrop
      rw [List.flatMap_cons, wellFormedAsdus]
      have htail := ih (fun f hf => hframes f (List.mem_cons_of_mem _ hf))
        (drop_add_of_append hdrop) (by omega)
      -- a well-formed frame adds its ASDUs, any other one is gone over in pieces
      by_cases haccepted : AcceptedAlone frame
      · rw [if_pos haccepted]
        exact finds_acceptedAlone haccepted hdrop (by omega) htail
      · rw [if_neg haccepted, List.nil_append]
        have hskipped := (hframes frame List.mem_cons_self).resolve_left haccepted
        exact finds_skippedWhole hskipped hdrop (by omega) htail

end Finds

section Calls

variable {b : StaticBuffer size} {frames : List (List UInt8)}

/-- The bytes of frames that are laid out can be read, as the first ones of the buffer. -/
theorem LaidOut.readable_eq (hlaid : LaidOut b frames) :
    ∃ rest, b.readable.drop 0 = frames.flatten ++ rest := by
  obtain ⟨rest, hrest⟩ := hlaid.contents
  have hroom := hlaid.room
  refine ⟨rest.take (size - 1 - frames.flatten.length), ?_⟩
  rw [List.drop_zero, StaticBuffer.readable, ← hrest, List.take_append,
    List.take_of_length_le (by omega)]

variable [Bytes.Host]

/-- What `parse` returns is what the loop finds: both are determined by the bytes. -/
theorem undisturbed_iff_finds (hlaid : LaidOut b frames) :
    Undisturbed b frames ↔ Finds b.readable b.written.toNat 0 (frames.flatMap wellFormedAsdus) := by
  have hsmall := b.size_lt
  have hroom := hlaid.room
  have hwritten := hlaid.written
  -- the loop ends, since every iteration moves the position on
  have hends : (framesScan b.readable b.written.toNat (b.written.toNat + 1) 0).isSome :=
    framesScan_isSome _ _ (Nat.zero_add _).ge
  obtain ⟨⟨asdus, stop⟩, hscan⟩ := Option.isSome_iff_exists.mp hends
  have hparse : ∀ internalFrameLength, ∃ left,
      parse { parser := { sequence := [], internalFrameLength }, buffer := b } = _ :=
    fun internalFrameLength =>
      parse_start hlaid.offset (by omega) [] internalFrameLength hscan
  have hfinds := finds_of_framesScan hscan
  constructor
  · intro h
    obtain ⟨t, hreturned⟩ := h 0
    obtain ⟨left, hrun⟩ := hparse 0
    injection hreturned.symm.trans hrun with hasdus
    rw [hasdus]
    exact hfinds
  · intro h internalFrameLength
    obtain ⟨left, hrun⟩ := hparse internalFrameLength
    rw [h.unique hfinds]
    exact ⟨_, hrun⟩

/-- **Malformed frames made of rejected pieces** leave the well-formed ones undisturbed. -/
theorem undisturbed_of_skippedWhole (hlaid : LaidOut b frames)
    (hframes : ∀ frame ∈ frames, AcceptedAlone frame ∨ SkippedWhole frame) :
    Undisturbed b frames := by
  obtain ⟨rest, hdrop⟩ := hlaid.readable_eq
  refine (undisturbed_iff_finds hlaid).mpr (finds_frames hframes hdrop ?_)
  rw [Nat.zero_add, hlaid.written]

end Calls

/-! ## A probe

A frame behind a malformed one shows where the loop leaves the malformed one: if it is not left at
its end, then the frame behind it is not found. -/

/-- Without the tag of a PDU nothing is stored, since its check is one of the first. -/
theorem asdus_nil_of_tag {bytes : List UInt8} {position : Nat}
    (htag : u8At bytes (position + 8) ≠ 0x60) : (pduScan bytes position).asdus = [] := by
  rcases pduScan_cases bytes position with ⟨check, -, hscan⟩ | ⟨hfirst, -⟩
  · rw [hscan]
  · have hmem : (position + 9, decide (u8At bytes (position + 8) = 0x60))
        ∈ checksToStore bytes position := by simp [checksToStore, pduChecks]
    exact absurd (of_decide_eq_true (forall_of_firstFailed hfirst _ hmem)) htag

/-- The sample frame has one byte that can be the tag of a PDU, the one at its place. -/
theorem u8At_sampleFrame_ne {x : Nat} (hx : 22 < x) : u8At sampleFrame.encode x ≠ 0x60 := by
  have hinside : ∀ x < 218, 22 < x → u8At sampleFrame.encode x ≠ 0x60 := by decide +kernel
  have hlength : sampleFrame.encode.length = 218 := by decide +kernel
  by_cases hlt : x < 218
  · exact hinside x hlt hx
  · rw [u8At, fieldAt_of_lt (by omega)]
    decide

/-- Behind its start nothing is found in the sample frame, whatever is before it. -/
theorem finds_behind {m asdus : List _} {written position : Nat}
    (h : Finds (m ++ sampleFrame.encode) written position asdus) (hbehind : m.length < position) :
    asdus = [] := by
  induction h with
  | done => rfl
  | @more position scan asdus _ hscan _ ih =>
      have hstop := (pduScan_stop (m ++ sampleFrame.encode) (position + etherHeaderSize)).1
      rw [hscan] at hstop
      obtain ⟨x, hx⟩ : ∃ x, position + etherHeaderSize + 8 = m.length + x :=
        ⟨_, (Nat.add_sub_cancel' (by omega)).symm⟩
      have hheader : etherHeaderSize = 14 := rfl
      -- the loop looks for a tag behind the one of the sample frame, and there is none
      have hnil : (pduScan (m ++ sampleFrame.encode) (position + etherHeaderSize)).asdus = [] := by
        refine asdus_nil_of_tag ?_
        rw [hx, (SameBytes.append m sampleFrame.encode (x + 1)).u8At_eq (le_refl _), Nat.zero_add]
        exact u8At_sampleFrame_ne (by omega)
      rw [hscan] at hnil
      rw [hnil, ih (by omega), List.append_nil]

/-- A piece at whose end a call stops, with nothing stored, is rejected at its end when it stands
alone. -/
theorem rejectedAtEnd_of_stop {bytes piece rest : List UInt8} {position : Nat}
    (hdrop : bytes.drop position = piece ++ rest)
    (hnil : (pduScan bytes (position + etherHeaderSize)).asdus = [])
    (hstop : (pduScan bytes (position + etherHeaderSize)).stop = position + piece.length) :
    RejectedAtEnd piece := by
  have hscan := pduScan_of_asdus_nil hnil
  rw [hstop] at hscan
  have halone : pduScan piece (0 + etherHeaderSize) = ⟨false, 0 + piece.length, []⟩ :=
    pduScan_of_part hdrop (List.append_nil piece).symm hscan (le_refl _)
  rw [Nat.zero_add, Nat.zero_add] at halone
  exact rejectedAtEnd_iff.mpr halone

/-- **Bytes in front of the sample frame** in which nothing is found, and behind which something is,
are made of rejected pieces. -/
theorem skippedWhole_of_finds {m : List UInt8} {position written : Nat} {nothing asdus : List ASDU}
    (hnothing : Finds (m ++ sampleFrame.encode) m.length position nothing) (hnil : nothing = [])
    (hle : position ≤ m.length) (hwritten : m.length ≤ written)
    (h : Finds (m ++ sampleFrame.encode) written position asdus) (hne : asdus ≠ []) :
    SkippedWhole (m.drop position) := by
  -- both loops take the same steps as long as they are in front of the sample frame
  induction hnothing generalizing asdus with
  | done hend =>
      rw [List.drop_of_length_le hend]
      exact .nil
  | @more position scan found hmore hscan _ ih =>
      obtain ⟨hstored, hfound⟩ := List.append_eq_nil_iff.mp hnil
      have hstop := (pduScan_stop (m ++ sampleFrame.encode) (position + etherHeaderSize)).1
      cases h with
      | done => omega
      | @more _ _ asdus _ hscan' hrest =>
          subst hscan hscan'
          rw [hstored, List.nil_append] at hne
          obtain ⟨length, hend⟩ : ∃ length,
              (pduScan (m ++ sampleFrame.encode) (position + etherHeaderSize)).stop
                = position + length := ⟨_, (Nat.add_sub_cancel' (by omega)).symm⟩
          rw [hend] at hrest ih
          by_cases hinside : position + length ≤ m.length
          · -- the call stops within the bytes, at the end of a piece
            have hsplit := drop_eq_take_append m position length
            have hdrop : (m ++ sampleFrame.encode).drop position
                = (m.drop position).take length
                  ++ (m.drop (position + length) ++ sampleFrame.encode) := by
              rw [List.drop_append_of_le_length hle, ← List.append_assoc, ← hsplit]
            have hlength : ((m.drop position).take length).length = length := by
              rw [List.length_take, List.length_drop]
              omega
            rw [← hlength] at hend
            rw [hsplit]
            exact .piece (rejectedAtEnd_of_stop hdrop hstored hend) (ih hfound hinside hrest hne)
          · exact absurd (finds_behind hrest (by omega)) hne

/-! ## Frames in a buffer -/

/-- A buffer with the bytes of some frames, of which `written` bytes count as written, before any of
them is read. -/
def unread (bytes : List UInt8) (hroom : bytes.length + 1 < 2 ^ 63) (written : Nat) :
    StaticBuffer (bytes.length + 1) :=
  { alone bytes hroom with offset := 0, written := UInt64.ofNat written }

/-- Frames at the start of the bytes are laid out in the buffer `unread`. -/
theorem laidOut_unread {frames : List (List UInt8)} {bytes rest : List UInt8}
    (hroom : bytes.length + 1 < 2 ^ 63) (hbytes : bytes = frames.flatten ++ rest) :
    LaidOut (unread bytes hroom frames.flatten.length) frames := by
  have hlength : frames.flatten.length ≤ bytes.length := by
    rw [hbytes, List.length_append]
    omega
  have hwritten : (UInt64.ofNat frames.flatten.length).toNat = frames.flatten.length :=
    UInt64.toNat_ofNat_of_lt' (by rw [UInt64.size]; omega)
  refine ⟨⟨rest ++ [0], ?_⟩, rfl, hwritten, Nat.lt_succ_of_le hlength⟩
  rw [← List.append_assoc, ← hbytes]
  rfl

section Calls

variable [Bytes.Host]

/-- Frames at the start of the bytes are undisturbed when the loop finds their ASDUs there. -/
theorem undisturbed_unread {frames : List (List UInt8)} {bytes rest : List UInt8}
    (hroom : bytes.length + 1 < 2 ^ 63) (hbytes : bytes = frames.flatten ++ rest) :
    Undisturbed (unread bytes hroom frames.flatten.length) frames ↔
      Finds bytes frames.flatten.length 0 (frames.flatMap wellFormedAsdus) := by
  have hlaid := laidOut_unread hroom hbytes
  have hreadable : (unread bytes hroom frames.flatten.length).readable = bytes :=
    readable_alone bytes hroom
  rw [undisturbed_iff_finds hlaid, hlaid.written, hreadable]

/-- The sample frame is complete and well formed, so that it may stand behind a malformed one. -/
theorem sampleFrame_wellFormed :
    Complete sampleFrame.encode ∧ AcceptedAlone sampleFrame.encode :=
  ⟨by decide +kernel, acceptedAlone_iff.mpr ⟨sampleFrame, by decide +kernel, rfl⟩⟩

/-- The ASDUs of the sample frame are its values: `wellFormedAsdus sampleFrame.encode` lists
them. -/
theorem wellFormedAsdus_sampleFrame :
    wellFormedAsdus sampleFrame.encode = sampleFrame.pdu.values := by
  rw [wellFormedAsdus, if_pos sampleFrame_wellFormed.2]
  exact asdusAlone_encode (by decide +kernel)

/-- A malformed frame that disturbs neither the bytes behind the written ones nor the sample frame
is made of rejected pieces. -/
theorem skippedWhole_of_undisturbed {m : List UInt8} (hrejected : ¬ AcceptedAlone m)
    (hroom : (m ++ sampleFrame.encode).length + 1 < 2 ^ 63)
    (halone : Undisturbed (unread (m ++ sampleFrame.encode) hroom [m].flatten.length) [m])
    (hprobe : Undisturbed
      (unread (m ++ sampleFrame.encode) hroom [m, sampleFrame.encode].flatten.length)
      [m, sampleFrame.encode]) :
    SkippedWhole m := by
  have hone : m ++ sampleFrame.encode = [m].flatten ++ sampleFrame.encode := by simp
  have htwo : m ++ sampleFrame.encode = [m, sampleFrame.encode].flatten ++ [] := by simp
  -- alone the malformed frame gives nothing, and before the sample frame all of that
  have hnothing := (undisturbed_unread hroom hone).mp halone
  have hfound := (undisturbed_unread hroom htwo).mp hprobe
  have hm : wellFormedAsdus m = [] := if_neg hrejected
  simp only [List.flatMap_cons, List.flatMap_nil, List.flatten_cons, List.flatten_nil, hm,
    wellFormedAsdus_sampleFrame, List.append_nil, List.nil_append] at hnothing hfound
  refine skippedWhole_of_finds hnothing rfl (Nat.zero_le _) ?_ hfound (List.cons_ne_nil _ _)
  rw [List.length_append]
  exact Nat.le_add_right _ _

/-- **Malformed frames leave their neighbours undisturbed**, in all lists of well-formed frames and
of malformed frames of a kind, exactly when every malformed frame of this kind is made of pieces
that are rejected at their end. -/
theorem undisturbed_iff (malformed : List UInt8 → Prop)
    (hmalformed : ∀ m, malformed m → Complete m ∧ ¬ AcceptedAlone m) :
    (∀ (size : Nat) (b : StaticBuffer size) (frames : List (List UInt8)),
        (∀ frame ∈ frames, Complete frame ∧ (AcceptedAlone frame ∨ malformed frame)) →
        LaidOut b frames → Undisturbed b frames) ↔
      ∀ m, malformed m → SkippedWhole m := by
  constructor
  · intro h m hm
    obtain ⟨hcomplete, hrejected⟩ := hmalformed m hm
    have hsample := sampleFrame_wellFormed
    -- a complete frame has as many bytes as a word can say
    have hroom : (m ++ sampleFrame.encode).length + 1 < 2 ^ 63 := by
      have hsmall := (u16At m 16).toNat_lt
      have hlength : sampleFrame.encode.length = 218 := by decide +kernel
      have hword := hcomplete.2
      rw [List.length_append]
      omega
    have hone : m ++ sampleFrame.encode = [m].flatten ++ sampleFrame.encode := by simp
    have htwo : m ++ sampleFrame.encode = [m, sampleFrame.encode].flatten ++ [] := by simp
    refine skippedWhole_of_undisturbed hrejected hroom ?_ ?_
    · exact h _ _ _ (by simp [hm, hcomplete]) (laidOut_unread hroom hone)
    · exact h _ _ _ (by simp [hm, hcomplete, hsample]) (laidOut_unread hroom htwo)
  · intro h size b frames hframes hlaid
    refine undisturbed_of_skippedWhole hlaid fun frame hmem => ?_
    exact (hframes frame hmem).2.imp_right (h frame)

end Calls

/-- A complete frame of 23 bytes whose PDU has another tag: the check of the tag fails at its last
byte. -/
def otherTag : List UInt8 := List.replicate 14 0 ++ [0x40, 0, 0, 9, 0, 0, 0, 0, 0x61]

/-- Such frames end where they are rejected, so that all lists with them are undisturbed. -/
theorem undisturbed_iff_otherTag :
    ((∀ (size : Nat) (b : StaticBuffer size) (frames : List (List UInt8)),
        (∀ frame ∈ frames,
          Complete frame ∧ (@AcceptedAlone ⟨.littleEndian⟩ frame ∨ frame = otherTag)) →
        LaidOut b frames → @Undisturbed size ⟨.littleEndian⟩ b frames) ↔
      ∀ m, m = otherTag → SkippedWhole m) ∧ SkippedWhole otherTag := by
  refine ⟨@undisturbed_iff ⟨.littleEndian⟩ (· = otherTag) ?_, ?_⟩
  · rintro _ rfl
    refine ⟨by decide +kernel, mt (@acceptedAlone_iff_pduScan ⟨.littleEndian⟩ otherTag).mp ?_⟩
    decide +kernel
  · have hpieces : otherTag = otherTag ++ [] := (List.append_nil _).symm
    rw [hpieces]
    exact .piece (by decide +kernel) .nil

/-- A complete frame of 34 bytes whose PDU has another tag: it is rejected at its 23rd byte. -/
def otherTagLong : List UInt8 :=
  List.replicate 14 0 ++ [0x40, 0, 0, 20, 0, 0, 0, 0, 0x61] ++ List.replicate 11 0

/-- A buffer with the longer frame and the sample frame behind it. -/
def lostBuffer : StaticBuffer ((otherTagLong ++ sampleFrame.encode).length + 1) :=
  unread (otherTagLong ++ sampleFrame.encode) (by decide +kernel) 252

/-- **A lost neighbour.** After the longer frame the loop goes on 11 bytes before its end and does
not find the well-formed frame behind it. -/
theorem neighbour_lost :
    Complete otherTagLong ∧ Complete sampleFrame.encode ∧
      @AcceptedAlone ⟨.littleEndian⟩ sampleFrame.encode ∧
      LaidOut lostBuffer [otherTagLong, sampleFrame.encode] ∧
      ¬ @Undisturbed _ ⟨.littleEndian⟩ lostBuffer [otherTagLong, sampleFrame.encode] := by
  let _ : Bytes.Host := ⟨.littleEndian⟩
  have hbytes : otherTagLong ++ sampleFrame.encode
      = [otherTagLong, sampleFrame.encode].flatten ++ [] := by simp
  have hlength : [otherTagLong, sampleFrame.encode].flatten.length = 252 := by decide +kernel
  have hroom : (otherTagLong ++ sampleFrame.encode).length + 1 < 2 ^ 63 := by decide +kernel
  have hlaid := laidOut_unread hroom hbytes
  have hundisturbed := undisturbed_unread hroom hbytes
  rw [hlength] at hlaid hundisturbed
  refine ⟨by decide +kernel, sampleFrame_wellFormed.1, sampleFrame_wellFormed.2, hlaid, fun h => ?_⟩
  -- the loop goes on inside of the longer frame, and is past the start of the sample frame then
  have hloop : framesScan (otherTagLong ++ sampleFrame.encode) 252 30 0 = some ([], 273) := by
    decide +kernel
  have hnil := (hundisturbed.mp h).unique (finds_of_framesScan hloop)
  rw [List.flatMap_cons, List.flatMap_cons, wellFormedAsdus_sampleFrame] at hnil
  exact List.cons_ne_nil _ _ (List.append_eq_nil_iff.mp (List.append_eq_nil_iff.mp hnil).2).1

end Iec

end IecCore

import IecCore.Iec.Completeness

/-! # Frames that are cut

When the last frame does not end within the bytes that can be read, the fields behind the cut are
zero. An ASDU whose data units are cut is stored with zeros; one that is cut before them is not,
since the tag or the size that is read as zero fails its check.

* **`CutFieldsZero full cut position`** — the fields of data units that a cut touches are zero
  anyway, which is when the cut does not show (`dataAt_take_eq_iff`).
* **`check_take`**, **`asduChecks_take`**, **`fieldChecks_take`** — a check that held ends before the
  cut, or fails now.
* **`asduScan_cut`** — an ASDU that is cut before its data units is rejected behind the cut.
* **`asdusScan_cut`**, **`pduScan_cut`**, **`framesScan_cut`** — what is found of a part that is
  cut, and when this is the part. -/

namespace IecCore

namespace Iec

open IecParser (etherHeaderSize)

variable {full rest : List UInt8} {position cut : Nat}

/-! ## Data units -/

/-- The fields of the data units of an ASDU, each with its start and its width. -/
def dataFields : List (Nat × Nat) :=
  (List.range unitsPerASDU).flatMap fun i => [(8 * i, 4), (8 * i + 4, 2), (8 * i + 6, 2)]

/-- Of the data units at a position, the fields that do not end before the cut are **zero**. A field
that the cut runs through is read as zero as a whole. -/
def CutFieldsZero (full : List UInt8) (cut position : Nat) : Prop :=
  ∀ field ∈ dataFields, cut < position + field.1 + field.2 →
    fieldAt full field.2 (position + field.1) = 0

instance (full : List UInt8) (cut position : Nat) : Decidable (CutFieldsZero full cut position) :=
  inferInstanceAs (Decidable (∀ field ∈ dataFields, _))

/-- A field survives the cut when it ends before it, or is zero. -/
theorem fieldAt_take_eq_iff {width : Nat} (hcut : cut ≤ full.length) :
    fieldAt (full.take cut) width position = fieldAt full width position ↔
      (cut < position + width → fieldAt full width position = 0) := by
  rw [fieldAt_take hcut]
  by_cases hinside : position + width ≤ cut
  · rw [if_pos hinside]
    exact ⟨fun _ hlt => absurd hlt (by omega), fun _ => rfl⟩
  · rw [if_neg hinside]
    exact ⟨fun hzero _ => hzero.symm, fun hzero => (hzero (by omega)).symm⟩

/-- Words are equal when their fields are, since a field of two bytes fits. -/
theorem u16At_eq_iff {bytes bytes' : List UInt8} :
    u16At bytes position = u16At bytes' position ↔
      fieldAt bytes 2 position = fieldAt bytes' 2 position := by
  have hlt : fieldAt bytes 2 position < 2 ^ 16 := fieldAt_lt ..
  have hlt' : fieldAt bytes' 2 position < 2 ^ 16 := fieldAt_lt ..
  rw [u16At, u16At, ← UInt16.toNat_inj, UInt16.toNat_ofNat_of_lt' hlt,
    UInt16.toNat_ofNat_of_lt' hlt']

/-- Double words are equal when their fields are, since a field of four bytes fits. -/
theorem u32At_eq_iff {bytes bytes' : List UInt8} :
    u32At bytes position = u32At bytes' position ↔
      fieldAt bytes 4 position = fieldAt bytes' 4 position := by
  have hlt : fieldAt bytes 4 position < 2 ^ 32 := fieldAt_lt ..
  have hlt' : fieldAt bytes' 4 position < 2 ^ 32 := fieldAt_lt ..
  rw [u32At, u32At, ← UInt32.toNat_inj, UInt32.toNat_ofNat_of_lt' hlt,
    UInt32.toNat_ofNat_of_lt' hlt']

/-- A data unit survives the cut when its three fields do: each that is not all there must have been
zero. -/
theorem dataUnitAt_take_eq_iff (hcut : cut ≤ full.length) :
    dataUnitAt (full.take cut) position = dataUnitAt full position ↔
      (cut < position + 4 → fieldAt full 4 position = 0) ∧
        (cut < position + 4 + 2 → fieldAt full 2 (position + 4) = 0) ∧
        (cut < position + 6 + 2 → fieldAt full 2 (position + 6) = 0) := by
  have hinjective : Function.Injective UInt32.toInt32 := fun _ _ => congrArg Int32.toUInt32
  rw [← fieldAt_take_eq_iff hcut, ← fieldAt_take_eq_iff hcut, ← fieldAt_take_eq_iff hcut,
    ← u32At_eq_iff, ← u16At_eq_iff, ← u16At_eq_iff, dataUnitAt, dataUnitAt, DataUnit.mk.injEq,
    hinjective.eq_iff]

/-- Data units survive the cut when the fields it touches are zero. -/
theorem dataAt_take_eq_iff (hcut : cut ≤ full.length) :
    dataAt (full.take cut) position unitsPerASDU = dataAt full position unitsPerASDU ↔
      CutFieldsZero full cut position := by
  rw [← Vector.toList_inj, toList_dataAt, toList_dataAt, List.map_inj_left, CutFieldsZero,
    dataFields, List.forall_mem_flatMap]
  refine forall₂_congr fun i _ => (dataUnitAt_take_eq_iff hcut).trans ?_
  simp only [List.forall_mem_cons, ← Nat.add_assoc]
  simp

/-! ## ASDUs -/

/-- A check of a byte that holds before the cut holds still, and behind the cut it fails when it
rejects a zero. -/
theorem check_take {P : UInt8 → Prop} [DecidablePred P] (hcut : cut ≤ full.length)
    (hgood : P (u8At full position)) (hzero : ¬ P 0) :
    position + 1 ≤ cut ∧ decide (P (u8At (full.take cut) position)) = true ∨
      cut < position + 1 ∧ decide (P (u8At (full.take cut) position)) = false := by
  rw [u8At, fieldAt_take hcut]
  by_cases hinside : position + 1 ≤ cut
  · rw [if_pos hinside]
    exact .inl ⟨hinside, decide_eq_true hgood⟩
  · rw [if_neg hinside]
    exact .inr ⟨by omega, decide_eq_false hzero⟩

/-- The checks between the svID and the data units, when they hold of the bytes that are cut: a
check up to the cut holds, one behind it fails. -/
theorem fieldChecks_take (hcut : cut ≤ full.length)
    (hfields : ∀ check ∈ fieldChecks full position, check.2 = true) :
    ∀ check ∈ fieldChecks (full.take cut) position,
      check.1 ≤ cut ∧ check.2 = true ∨ cut < check.1 ∧ check.2 = false := by
  simp only [fieldChecks, List.forall_mem_cons, decide_eq_true_eq] at hfields
  obtain ⟨hcntId, hcntLength, hrevId, hrevLength, hsyncId, hsyncLength, hsetId, hsetLength, -⟩ :=
    hfields
  simp only [fieldChecks, List.forall_mem_cons]
  -- none of these values is zero, which is what is read behind the cut
  exact ⟨check_take (P := (· = 0x82)) hcut hcntId (by decide),
    check_take (P := (· = 2)) hcut hcntLength (by decide),
    check_take (P := (· = 0x83)) hcut hrevId (by decide),
    check_take (P := (· = 4)) hcut hrevLength (by decide),
    check_take (P := (· = 0x85)) hcut hsyncId (by decide),
    check_take (P := (· = 1)) hcut hsyncLength (by decide),
    check_take (P := (· = 0x87)) hcut hsetId (by decide),
    check_take (P := (· = 64)) hcut hsetLength (by decide), by simp⟩

/-- The checks up to the length of the svID, when they hold of the bytes that are cut. -/
theorem asduChecks_take (hcut : cut ≤ full.length)
    (hheader : ∀ check ∈ asduChecks full position, check.2 = true) :
    ∀ check ∈ asduChecks (full.take cut) position,
      check.1 ≤ cut ∧ check.2 = true ∨ cut < check.1 ∧ check.2 = false := by
  simp only [asduChecks, List.forall_mem_cons, decide_eq_true_eq] at hheader
  obtain ⟨hid, hlength, hsvId, hsvIdLength, -⟩ := hheader
  simp only [asduChecks, List.forall_mem_cons]
  exact ⟨check_take (P := (· = 0x30)) hcut hid (by decide),
    check_take (P := fun byte => 91 ≤ byte ∧ byte ≤ 115) hcut hlength (by decide),
    check_take (P := (· = 0x80)) hcut hsvId (by decide),
    check_take (P := fun byte => 10 ≤ byte ∧ byte ≤ 34) hcut hsvIdLength (by decide), by simp⟩

/-- Checks that hold up to the cut and fail behind it end behind it, when one of them is there. -/
theorem runChecks_cut {checks : List (Nat × Bool)} {pass : Scan}
    (hchecks : ∀ check ∈ checks, check.1 ≤ cut ∧ check.2 = true ∨ cut < check.1 ∧ check.2 = false)
    (hbehind : ∃ check ∈ checks, cut < check.1) :
    ∃ stop, cut < stop ∧ runChecks checks pass = ⟨false, stop, []⟩ := by
  rcases runChecks_cases checks pass with ⟨-, hall⟩ | ⟨check, hmem, hfailed, hrun⟩
  · obtain ⟨check, hmem, hlt⟩ := hbehind
    rcases hchecks check hmem with ⟨hle, -⟩ | ⟨-, hfailed⟩
    · omega
    · rw [hall check hmem] at hfailed
      cases hfailed
  · rcases hchecks check hmem with ⟨-, hholds⟩ | ⟨hlt, -⟩
    · rw [hfailed] at hholds
      cases hholds
    · exact ⟨check.1, hlt, hrun⟩

/-- **An ASDU that is cut before its data units** is rejected behind the cut, with nothing
stored. -/
theorem asduScan_cut (a : SvAsdu) (hdrop : full.drop position = a.head ++ rest)
    (hcut : cut ≤ full.length) (hbehind : cut < position + a.head.length) :
    ∃ stop, cut < stop ∧ asduScan (full.take cut) position = ⟨false, stop, []⟩ := by
  obtain ⟨hheader, -, hsvId, hfieldsDrop⟩ := asduHeader_encode a hdrop
  obtain ⟨hfields, -⟩ := asduFields_encode a.asdu hfieldsDrop
  have hend : svIdEnd full position = position + 4 + a.svId.length := by rw [svIdEnd, hsvId]
  rw [a.length_head] at hbehind
  have hheader' := asduChecks_take hcut hheader
  by_cases hinside : position + 4 ≤ cut
  · -- the header is read, the cut is in the fields behind the svID
    have hpass : ∀ check ∈ asduChecks (full.take cut) position, check.2 = true := by
      intro check hmem
      have hle : check.1 ≤ cut := by
        simp only [asduChecks, List.mem_cons, List.not_mem_nil, or_false] at hmem
        rcases hmem with rfl | rfl | rfl | rfl <;> dsimp only <;> omega
      rcases hheader' check hmem with ⟨-, hholds⟩ | ⟨hlt, -⟩
      · exact hholds
      · omega
    have hend' : svIdEnd (full.take cut) position = svIdEnd full position := by
      rw [svIdEnd, svIdEnd, svIdLengthAt, svIdLengthAt, u8At, u8At, fieldAt_take hcut,
        if_pos hinside]
    rw [asduScan, runChecks_of_forall hpass, hend']
    refine runChecks_cut (fieldChecks_take hcut hfields) ?_
    simp only [fieldChecks, List.exists_mem_cons_iff]
    omega
  · refine runChecks_cut hheader' ?_
    simp only [asduChecks, List.exists_mem_cons_iff]
    omega

/-- **An ASDU that is cut in its data units** is accepted, and it is the ASDU when the fields that
the cut touches are zero. -/
theorem asduScan_cut_data (a : SvAsdu) (hdrop : full.drop position = a.encode ++ rest)
    (hcut : cut ≤ full.length) (hhead : position + a.head.length ≤ cut) :
    ∃ asdu, asduScan (full.take cut) position = ⟨true, position + a.encode.length, [asdu]⟩ ∧
      (asdu = a.asdu ↔ CutFieldsZero full cut (position + a.encode.length - 64)) := by
  rw [a.encode_eq, List.append_assoc] at hdrop
  obtain ⟨rest', hdrop'⟩ := exists_drop_take hdrop hhead
  have hdata := dataAt_encode a.asdu.data (drop_add_of_append hdrop)
  have hstart : position + a.encode.length - 64 = position + a.head.length := by
    rw [a.length_encode, a.length_head]
    omega
  refine ⟨_, asduScan_head a hdrop', ?_⟩
  rw [hstart, ← dataAt_take_eq_iff hcut, hdata, ASDU.mk.injEq]
  exact ⟨fun h => h.2.2.2, fun h => ⟨rfl, rfl, rfl, h⟩⟩

/-- **ASDUs that are cut.** The last one survives when it is cut in its data units and the fields
that the cut touches are zero; else an ASDU is missing. -/
theorem asdusScan_cut (asdus : List SvAsdu)
    (hdrop : full.drop position = asdus.flatMap SvAsdu.encode ++ rest) (hcut : cut ≤ full.length)
    (hstart : position ≤ cut) (hbehind : cut < position + (asdus.flatMap SvAsdu.encode).length) :
    cut < (asdusScan (full.take cut) asdus.length position).stop ∧
      (asdusScan (full.take cut) asdus.length position).asdus.length ≤ asdus.length ∧
      ((asdusScan (full.take cut) asdus.length position).asdus = asdus.map SvAsdu.asdu ↔
        position + (asdus.flatMap SvAsdu.encode).length ≤ cut + 64 ∧
          CutFieldsZero full cut (position + (asdus.flatMap SvAsdu.encode).length - 64)) := by
  induction asdus generalizing position with
  | nil =>
      rw [List.flatMap_nil, List.length_nil] at hbehind
      omega
  | cons a asdus ih =>
      rw [List.flatMap_cons, List.append_assoc] at hdrop
      rw [List.flatMap_cons, List.length_append, ← Nat.add_assoc] at hbehind ⊢
      have hnext := drop_add_of_append hdrop
      have hlength := a.length_encode
      have hhead := a.length_head
      rw [List.length_cons, asdusScan_succ, List.map_cons]
      by_cases hwhole : position + a.encode.length ≤ cut
      · -- the cut is behind this ASDU
        obtain ⟨rest', hdrop'⟩ := exists_drop_take hdrop hwhole
        obtain ⟨hstop, hcount, hiff⟩ := ih hnext hwhole hbehind
        rw [asduScan_encode a hdrop', if_pos rfl, ← hiff]
        refine ⟨hstop, Nat.succ_le_succ hcount, ?_⟩
        rw [List.singleton_append, List.cons_inj_right]
      by_cases hheadInside : position + a.head.length ≤ cut
      · obtain ⟨asdu, hscan, hiff⟩ := asduScan_cut_data a hdrop hcut hheadInside
        rw [hscan, if_pos rfl]
        cases asdus with
        | nil =>
            refine ⟨?_, Nat.le_refl 1, ?_⟩
            · show cut < position + a.encode.length
              omega
            · show [asdu] = [a.asdu] ↔ _
              rw [List.flatMap_nil, List.length_nil, Nat.add_zero, List.singleton_inj, hiff]
              exact ⟨fun h => ⟨by omega, h⟩, fun h => h.2⟩
        | cons b asdus =>
            -- the next ASDU starts behind the cut
            rw [List.flatMap_cons, List.append_assoc, b.encode_eq, List.append_assoc] at hnext
            have hb := b.length_head
            obtain ⟨stop, hstop, hrejected⟩ := asduScan_cut b hnext hcut (by omega)
            have hrest := (length_flatMap_encode (b :: asdus)).1
            rw [List.length_cons] at hrest ⊢
            rw [asdusScan_succ, hrejected, if_neg Bool.false_ne_true]
            refine ⟨hstop, Nat.le_add_left 1 _, ⟨fun h => ?_, fun h => ?_⟩⟩
            · cases h
            · omega
      · rw [a.encode_eq, List.append_assoc] at hdrop
        obtain ⟨stop, hstop, hrejected⟩ := asduScan_cut a hdrop hcut (by omega)
        rw [hrejected, if_neg Bool.false_ne_true]
        refine ⟨hstop, Nat.zero_le _, ⟨fun h => ?_, fun h => ?_⟩⟩
        · cases h
        · omega

/-! ## Frames -/

/-- **A PDU that is cut** behind its head stops behind the cut, stores no more ASDUs than it has,
and stores all of them when the cut touches the last data units only and these fields are zero. -/
theorem pduScan_cut {pdu : SvPdu} (hpdu : pdu.Congruent)
    (hdrop : full.drop position = pdu.encode ++ rest) (hcut : cut ≤ full.length)
    (hhead : position + pdu.head.length ≤ cut) (hbehind : cut < position + pdu.length) :
    cut < (pduScan (full.take cut) position).stop ∧
      (pduScan (full.take cut) position).asdus.length ≤ pdu.values.length ∧
      ((pduScan (full.take cut) position).asdus = pdu.values ↔
        position + pdu.length ≤ cut + 64 ∧
          CutFieldsZero full cut (position + pdu.length - 64)) := by
  rw [pdu.encode_eq, List.append_assoc] at hdrop
  -- the head is whole, so that its checks hold and the ASDUs start where they did
  obtain ⟨rest', hdrop'⟩ := exists_drop_take hdrop hhead
  obtain ⟨-, hchecks, hcount, hstart⟩ := pduChecks_head hpdu hdrop'
  have hlength : position + pdu.head.length + (pdu.asdus.flatMap SvAsdu.encode).length
      = position + pdu.length := by
    rw [Nat.add_assoc]
    exact congrArg (position + ·) pdu.length_head.1
  have hasdus := asdusScan_cut pdu.asdus (drop_add_of_append hdrop) hcut hhead
    (by rw [hlength]; exact hbehind)
  rw [hlength] at hasdus
  rw [pduScan, runChecks_of_forall hchecks, sequencePass, hcount, hstart, SvPdu.values,
    List.length_map]
  exact hasdus

/-- **Frames of which the last is cut** behind its head. The loop ends behind the cut, and all ASDUs
are found when the last one is cut in its data units and the fields that the cut touches are
zero. -/
theorem framesScan_cut {frames : List SvFrame} {last : SvFrame}
    (hframes : ∀ frame ∈ frames, frame.pdu.Congruent) (hlast : last.pdu.Congruent)
    (hfull : full = frames.flatMap SvFrame.encode ++ last.encode)
    (hhead : (frames.flatMap SvFrame.encode).length + 37 ≤ cut) (hcut : cut < full.length)
    (fuel : Nat) :
    ∃ asdus stop,
      framesScan (full.take cut) (cut + 1) (frames.length + (fuel + 1 + 1)) 0
          = some ((frames.flatMap fun frame => frame.pdu.values) ++ asdus, stop) ∧
        asdus.length ≤ last.pdu.values.length ∧
        (asdus = last.pdu.values ↔
          full.length ≤ cut + 64 ∧ CutFieldsZero full cut (full.length - 64)) := by
  have hdrop : full.drop 0 = frames.flatMap SvFrame.encode ++ last.encode := hfull
  obtain ⟨rest', hdrop'⟩ := exists_drop_take hdrop
    (show 0 + (frames.flatMap SvFrame.encode).length ≤ cut by omega)
  have hheader := drop_add_of_append hdrop
  -- the last frame starts behind the complete ones, and its PDU behind its Ethernet header
  have hpduDrop : full.drop ((frames.flatMap SvFrame.encode).length + 14)
      = last.pdu.encode ++ [] := by
    rw [Nat.zero_add, SvFrame.encode] at hheader
    rw [← last.length_etherHeader, drop_add_of_append hheader, List.append_nil]
  have hlength : (frames.flatMap SvFrame.encode).length + 14 + last.pdu.length = full.length := by
    rw [hfull, List.length_append, last.length_encode]
    omega
  have hheadLength := last.pdu.length_head.2
  obtain ⟨hstop, hcount, hiff⟩ := pduScan_cut hlast hpduDrop hcut.le (by omega) (by omega)
  rw [hlength] at hiff
  refine ⟨_, _, framesScan_encode hframes hdrop' (by omega)
    (framesScan_of_lt (by omega) (framesScan_of_le _ ?_ fuel)), ?_, ?_⟩
  all_goals rw [Nat.zero_add]
  · exact hstop
  · rw [List.append_nil]
    exact hcount
  · rw [List.append_nil]
    exact hiff

end Iec

end IecCore

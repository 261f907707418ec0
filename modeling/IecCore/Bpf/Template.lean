import IecCore.Engines.BpfExec
import IecCore.Lib.CLiteral

/-! # The shipped template

The text of `ethernet-parse.c`. The svID is put between the quotes of a string literal in `SvIdCmp`;
the addresses are put into the filter behind it. The lines of the text are those of the file, so that
a change of the file is a change of this module.

* **`svIdCmpHead`**, **`svIdCmpBody`**, **`filterSource`** — the text up to the svID, from behind
  its literal to the end of `SvIdCmp`, and the rest.
* **`program literal rest`**, **`template`**, **`shipped`** — the text with anything in the literal,
  as it is shipped, and the executor with it.
* **`percent_not_mem_svIdCmpHead`**, **`percent_not_mem_svIdCmpBody`** — where there is no
  placeholder, so that a pass goes over these parts.
* **`filterSourceCode_shipped`** — filtering puts the svID between the quotes and leaves the text of
  `SvIdCmp` as it is. -/

namespace IecCore

namespace Bpf

open Utils CLiteral BPFExecutor

/-- Lines of a text, each with a line break behind it: the template is written with them. -/
def lines (ls : List String) : Text := ls.flatMap fun l => text l ++ [newline]

/-! ## The text -/

/-- The lines in front of the declaration of `cmp_str`: the headers of the frame. -/
def headLines : List String :=
  ["#include <uapi/linux/ptrace.h>",
   "#include <net/sock.h>",
   "#include <bcc/proto.h>",
   "#include <bcc/helpers.h>",
   "",
   "#define IEC_PROTO 0x8100      // 0x8100 - IEC 61850 protocol",
   "#define SV_PRIORITY 0b100     // SV protocol user priority",
   "#define SV_ETHERTYPE 0x88BA   // SV message identifier",
   "#define SV_PDU_ID_80P 0x60    // SV PDU ID for frames with 80 data points",
   "#define SV_PDU_ID_256P 0x6082 // SV PDU ID for frames with 256 data points",
   "",
   "struct sv_start_t \x7b",
   "    u16 appid;",
   "    u16 length;",
   "    u16 reserved1;",
   "    u16 reserved2;",
   "\x7d BPF_PACKET_HEADER;",
   "",
   "struct sv_seqASDU_80p \x7b",
   "    u8 seqAsduId;",
   "    u8 length;",
   "\x7d BPF_PACKET_HEADER;",
   "",
   "struct sv_noASDU_80p \x7b",
   "    u8 noSduId;",
   "    u8 length;",
   "    u8 blockNum;",
   "    struct sv_seqASDU_80p seqASDU;",
   "\x7d BPF_PACKET_HEADER;",
   "",
   "struct sv_savPDU_80p \x7b",
   "    u8 savPduId;",
   "    u8 length;",
   "    struct sv_noASDU_80p noASDU;",
   "\x7d BPF_PACKET_HEADER;",
   "",
   "struct sv_seqASDU_256p \x7b",
   "    u16 seqAsduId;",
   "    u16 length;",
   "\x7d BPF_PACKET_HEADER;",
   "",
   "struct sv_noASDU_256p \x7b",
   "    u8 noSduId;",
   "    u8 length;",
   "    u8 blockNum;",
   "    struct sv_seqASDU_256p seqASDU;",
   "\x7d BPF_PACKET_HEADER;",
   "",
   "struct sv_savPDU_256p \x7b",
   "    u16 savPduId;",
   "    u16 length;",
   "    struct sv_noASDU_256p noASDU;",
   "\x7d BPF_PACKET_HEADER;",
   "",
   "struct ASDU_start_t \x7b",
   "    u8 asduId;",
   "    u8 length;",
   "    u8 svId;",
   "    u8 svIdLength;",
   "\x7d BPF_PACKET_HEADER;",
   "",
   "static inline bool SvIdCmp(struct __sk_buff *skb, unsigned long " ++
       "offset, unsigned long length) \x7b",
   "    // NOTE: value SV_ID declared by user programm"]

/-- The text of the template up to the quote in front of the svID. -/
def svIdCmpHead : Text := lines headLines ++ text "    char cmp_str[] = \""

/-- The lines of `SvIdCmp` behind the literal, to the end of the function. -/
def bodyLines : List String :=
  [";",
   "",
   "    if ((sizeof(cmp_str) - 1) != length)",
   "        return false;",
   "    ",
   "    for (unsigned long i = 0; i < sizeof(cmp_str) - 1; ++i) \x7b",
   "        if (load_byte(skb, offset + i) != cmp_str[i]) \x7b",
   "            return false;",
   "        \x7d",
   "    \x7d",
   "    return true;",
   "\x7d"]

/-- The text of `SvIdCmp` from behind the literal on, to the end of the function. -/
def svIdCmpBody : Text := lines bodyLines

/-- The lines behind `SvIdCmp`: the filter, with the placeholders of the addresses. -/
def filterLines : List String :=
  ["",
   "/* eBPF program.",
   "   Filter IEC 61850-9-2 SV frames, having payload not empty if the program",
   "   is loaded as PROG_TYPE_SOCKET_FILTER and attached to the socket.",
   "   return  0 -> DROP the frame.",
   "   return -1 -> KEEP the frame and return it to user space (userspace " ++
       "can read it from the socket_fd).",
   "*/",
   "int iec61850_filter(struct __sk_buff *skb) \x7b",
   "    u8 *cursor = 0;",
   "",
   "    // Source MAC address from capturing ethernet frame",
   "    struct ethernet_t *ethernet = cursor_advance(cursor, sizeof(*ethernet));",
   "    u64 sourceMac = ethernet->src;",
   "",
   "    // Filter frames with protocol type",
   "    if (ethernet->type != IEC_PROTO && ethernet->type != SV_ETHERTYPE) \x7b",
   "        goto DROP;",
   "    \x7d",
   "",
   "    // Current ethernet device MAC address",
   "    // NOTE: value IFACE_MAC declared by user programm",
   "    u64 ifaceMac = %IFACE_MAC;",
   "",
   "    // Filter frames that socket send",
   "    if (ifaceMac == sourceMac) \x7b",
   "        goto DROP;",
   "    \x7d",
   "    ",
   "    // Sender ethernet device MAC address",
   "    // NOTE: value SRC_MAC declared by user programm",
   "    u64 specMac = %SRC_MAC;",
   "    ",
   "    // Filter frames with specified source MAC address",
   "    if (specMac != sourceMac) \x7b",
   "        goto DROP;",
   "    \x7d",
   "",
   "    struct sv_start_t *sv_start = cursor_advance(cursor, sizeof(*sv_start));",
   "    unsigned long pduIdOffset = sizeof(*ethernet) + sizeof(*sv_start);",
   "    // Read PDU ID from skb",
   "    u16 pduId256 = load_half(skb, pduIdOffset);",
   "    u16 pduId80 = (pduId256 >> 8) & 0x00FF;",
   "    // bpf_trace_printk(\"0x%x 0x%x\\n\", pduId256, pduId80);",
   "",
   "    unsigned long pduSize = 0;",
   "    // Frame with 256 data points",
   "    if (pduId256 == SV_PDU_ID_256P) \x7b",
   "        struct sv_savPDU_256p *savPDU = cursor_advance(cursor, sizeof(*savPDU));",
   "        pduSize = sizeof(*savPDU);",
   "    \x7d",
   "    // Frame with 80 data points",
   "    else if (pduId80 == SV_PDU_ID_80P) \x7b",
   "        struct sv_savPDU_80p *savPDU = cursor_advance(cursor, sizeof(*savPDU));",
   "        pduSize = sizeof(*savPDU);",
   "    \x7d",
   "    // Unknown data",
   "    else \x7b",
   "        goto DROP;",
   "    \x7d",
   "",
   "    // Calculating offset and getting length of sample values ID.",
   "    struct ASDU_start_t *asduHead = cursor_advance(cursor, sizeof(*asduHead));",
   "    const unsigned long svIdOfsset = pduIdOffset + pduSize + sizeof(*asduHead);",
   "    const u8 svIdLength = asduHead->svIdLength;",
   "",
   "    // Comparing sample values ID.",
   "    bool cmp = SvIdCmp(skb, svIdOfsset, svIdLength);",
   "    if (!cmp) \x7b",
   "        // bpf_trace_printk(\"It's not Ok :(\");",
   "        goto DROP;",
   "    \x7d",
   "",
   "    goto KEEP;",
   "",
   "    // keep the packet and send it to userspace: returning -1",
   "    KEEP:",
   "        return -1;",
   "",
   "    // drop the packet: returning 0",
   "    DROP:",
   "        return 0;",
   "\x7d",
   ""]

/-- The text of the template behind `SvIdCmp`: the filter, with the two addresses as
placeholders. -/
def filterSource : Text := lines filterLines

/-- A **program** with a text between the quotes of the literal, and some text behind `SvIdCmp`. -/
def program (literal rest : Text) : Text :=
  svIdCmpHead ++ (literal ++ quote :: (svIdCmpBody ++ rest))

/-- The **template** as it is shipped, with `%SV_ID` in the literal. -/
def template : Text := program (text "%SV_ID") filterSource

/-- The executor with the template, before it is filtered: its source code is `template`. -/
def shipped : BPFExecutor where
  bpfProg := { sourceCode := template }

/-! ## Filtering the template -/

/-- There is no placeholder in front of the svID: `percent ∉ svIdCmpHead`. -/
theorem percent_not_mem_svIdCmpHead : percent ∉ svIdCmpHead := by decide +kernel

/-- There is no placeholder in `SvIdCmp` behind the svID: `percent ∉ svIdCmpBody`. -/
theorem percent_not_mem_svIdCmpBody : percent ∉ svIdCmpBody := by decide +kernel

/-- A pass starts behind the head, whatever it puts in: `svIdCmpHead` has no mark, and is left as it
is. -/
theorem substitute_svIdCmpHead {r : Replacement UInt8} (hkey : Marked percent r.key)
    (source : Text) :
    substitute [r] (svIdCmpHead ++ source) = svIdCmpHead ++ substitute [r] source :=
  substitute_append_of_not_mem (List.forall_mem_singleton.mpr hkey) percent_not_mem_svIdCmpHead
    source

/-- A pass goes over the rest of `SvIdCmp`, which has no placeholder. -/
theorem substitute_svIdCmpBody {r : Replacement UInt8} (hkey : Marked percent r.key)
    (rest : Text) : substitute [r] (quote :: (svIdCmpBody ++ rest))
      = quote :: (svIdCmpBody ++ substitute [r] rest) := by
  have hplain : percent ∉ quote :: svIdCmpBody :=
    List.not_mem_cons_of_ne_of_not_mem (by decide) percent_not_mem_svIdCmpBody
  exact substitute_append_of_not_mem (List.forall_mem_singleton.mpr hkey) hplain rest

/-- **The pass of an address** leaves the placeholder of the svID, because its own placeholder has
another name. -/
theorem substitute_program_of_ne {r : Replacement UInt8} (hkey : Marked percent r.key)
    (hother : ∀ rest, ¬r.key <+: text "%SV_ID" ++ rest) (rest : Text) :
    substitute [r] (program (text "%SV_ID") rest)
      = program (text "%SV_ID") (substitute [r] rest) := by
  have hsplit : ∀ back, text "%SV_ID" ++ back = percent :: (text "SV_ID" ++ back) := fun _ => rfl
  have hname : percent ∉ text "SV_ID" := by decide
  have hother' := hother (quote :: (svIdCmpBody ++ rest))
  rw [hsplit] at hother'
  rw [program, program, substitute_svIdCmpHead hkey, hsplit, hsplit,
    substitute_cons (matchAt_singleton_eq_none hother'),
    substitute_append_of_not_mem (List.forall_mem_singleton.mpr hkey) hname,
    substitute_svIdCmpBody hkey]

/-- **The pass of the svID** puts it between the quotes, and goes on behind `SvIdCmp`. -/
theorem substitute_program_svId (svID rest : Text) :
    substitute [svIdPlaceholder svID] (program (text "%SV_ID") rest)
      = program svID (substitute [svIdPlaceholder svID] rest) := by
  have hkey : Marked percent (svIdPlaceholder svID).key := marked_svIdPlaceholder svID
  have hstands : substitute [svIdPlaceholder svID]
      (text "%SV_ID" ++ quote :: (svIdCmpBody ++ rest)) = _ :=
    substitute_of_match (matchAt_singleton_append (quote :: (svIdCmpBody ++ rest)))
  rw [program, program, substitute_svIdCmpHead hkey, hstands, substitute_svIdCmpBody hkey]
  rfl

/-- **Filtering the shipped template** puts the svID between the quotes of the literal, whatever the
addresses are. -/
theorem filterSourceCode_shipped (readFile : Text → Text) (ifaceName srcMac : Text) {svID : Text}
    (hsvID : svID ≠ []) :
    ∃ rest, filterSourceCode readFile shipped ifaceName srcMac svID
      = some ⟨⟨program svID rest⟩⟩ := by
  obtain ⟨ifaceMac, hiface, -⟩ := exists_macByIfaceName readFile ifaceName
  -- no key of an address stands where the svID does: they differ in the second or the third letter
  have hnotIface : ∀ rest, ¬(ifaceMacPlaceholder ifaceMac).key <+: text "%SV_ID" ++ rest := by
    intro rest hstart
    have hsecond := (List.cons_prefix_cons.mp (List.cons_prefix_cons.mp hstart).2).1
    exact absurd hsecond (by decide)
  have hnotSrc : ∀ rest, ¬(srcMacPlaceholder srcMac).key <+: text "%SV_ID" ++ rest := by
    intro rest hstart
    have hthird := (List.cons_prefix_cons.mp
      (List.cons_prefix_cons.mp (List.cons_prefix_cons.mp hstart).2).2).1
    exact absurd hthird (by decide)
  have hsource : shipped.bpfProg.sourceCode = program (text "%SV_ID") filterSource := rfl
  have hpasses := filterSourceCode_passes shipped hiface srcMac hsvID
  rw [hsource, substitute_program_of_ne (marked_ifaceMacPlaceholder ifaceMac) hnotIface,
    substitute_program_of_ne (marked_srcMacPlaceholder srcMac) hnotSrc,
    substitute_program_svId] at hpasses
  exact ⟨_, hpasses⟩

end Bpf

end IecCore

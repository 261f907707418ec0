import IecCore.Iec.IecParser
import IecCore.Lib.Lockstep
import IecCore.Lib.Observation

/-! # Using a parser again

A parser is kept for batch after batch. Its `internalFrameLength` is left at any value when a frame
ends early, and a frame without a length does not set it; but it is set before it is read. So the
calls on two parsers that differ in the counter run in lockstep, and their callers see the same.

* **`SameButLength`** — states that differ in the counter at most.
* **`lockstep_parsePDU`** — a frame does not depend on it: up to the header the counter is not read,
  and **`lockstep_setFrameLength`** makes the states equal.
* **`parseWithin`**, **`object`** — a call of `parse`, for a number of iterations of its loop, and
  what its caller sees of it (`Shown`).
* **`sequence_of_after`** — after every history the parser is without ASDUs.
* **`reused_as_new`** — a parser that was used behaves as a new one, in all further calls. -/

namespace IecCore

namespace Iec

namespace IecParser

variable {size : Nat} {α : Type}

/-! ## The counter -/

/-- The states **differ in the counter at most**: the buffer and the stored ASDUs are the same. -/
def SameButLength (s t : ParseState size) : Prop :=
  s.buffer = t.buffer ∧ s.parser.sequence = t.parser.sequence

/-- A state differs from itself in nothing, so in the counter at most. -/
theorem SameButLength.refl (s : ParseState size) : SameButLength s s := ⟨rfl, rfl⟩

/-- A call of the buffer does not look at the parser, and runs in lockstep. -/
theorem lockstep_onBuffer (m : EStateM Fault (StaticBuffer size) α) :
    Lockstep SameButLength (onBuffer m) := by
  apply lockstep_zoom
  · rintro s t ⟨hbuffer, -⟩
    exact hbuffer
  · rintro b s t ⟨-, hsequence⟩
    exact ⟨rfl, hsequence⟩

/-- Skipping bytes runs in lockstep, since the buffers are the same. -/
theorem lockstep_appendOffset (length : UInt64) :
    Lockstep SameButLength (appendOffset length : ParseM size Unit) := by
  apply lockstep_modify
  rintro s t ⟨hbuffer, hsequence⟩
  exact ⟨congrArg (·.appendOffset length) hbuffer, hsequence⟩

/-- **Setting the counter** makes the states equal, so that whatever follows runs in lockstep. -/
theorem lockstep_setFrameLength (length : UInt16) (f : Unit → ParseM size α) :
    Lockstep SameButLength (setFrameLength length >>= f) := by
  apply lockstep_overwrite SameButLength.refl
  rintro ⟨⟨sequence, left⟩, b⟩ ⟨⟨sequence', left'⟩, b'⟩ ⟨hbuffer, hsequence⟩
  cases hbuffer
  cases hsequence
  rfl

/-- The end of a call moves the ASDUs out: both runs return the same ASDUs and leave empty
sequences. -/
theorem lockstep_moveOut : Lockstep SameButLength (do
    let s ← get
    set { s with parser.sequence := [] }
    return s.parser.sequence : ParseM size (List ASDU)) := by
  rintro s t ⟨hbuffer, hsequence⟩
  exact ⟨hsequence, hbuffer, rfl⟩

section Calls

variable [Bytes.Host]

/-- **A frame does not depend on the counter**: the header is read without it, and it is set before
the first part that counts. -/
theorem lockstep_parsePDU : Lockstep SameButLength (parsePDU : ParseM size Bool) := by
  apply (lockstep_onBuffer _).bind
  intro appID
  apply (lockstep_onBuffer _).bind
  intro headLength
  apply (lockstep_onBuffer _).bind
  intro res1
  apply (lockstep_onBuffer _).bind
  intro res2
  apply Lockstep.ite
  · exact lockstep_pure false
  · exact lockstep_setFrameLength _ _

/-- The body of the loop over the frames runs in lockstep from states that differ in the counter
only. -/
theorem lockstep_parseFrame : Lockstep SameButLength (parseFrame : ParseM size Bool) := by
  apply (lockstep_appendOffset _).bind
  intro _
  exact lockstep_parsePDU

/-- The loop over the frames runs in lockstep, by induction on its iterations: it looks at the
buffer. -/
theorem lockstep_parseLoop (iterations : Nat) :
    Lockstep SameButLength (parseLoop iterations : ParseM size Unit) := by
  induction iterations with
  | zero => exact lockstep_throw _
  | succ iterations ih =>
      -- the condition of the loop looks at the buffer only
      apply lockstep_get
      intro s t hsame
      rw [hsame.1]
      refine Lockstep.ite ?_ (lockstep_pure _) s t hsame
      apply lockstep_parseFrame.bind
      intro accepted
      exact ih

/-! ## Calls of a parser -/

/-- **A call does not depend on the counter** that an earlier one has left. -/
theorem lockstep_parseWithin (iterations : Nat) :
    Lockstep SameButLength (parseWithin iterations : ParseM size (List ASDU)) := by
  apply (lockstep_parseLoop iterations).bind
  intro _
  exact lockstep_moveOut

/-- A call that returns leaves no ASDUs in the parser: `t.parser.sequence = []`. -/
theorem sequence_of_parseWithin {iterations : Nat} {s t : ParseState size} {asdus : List ASDU}
    (hreturns : parseWithin iterations s = .ok asdus t) : t.parser.sequence = [] := by
  have hempty : wp (parseWithin iterations) (fun _ t => t.parser.sequence = [])
      (fun _ _ => True) s := by
    rw [parseWithin, wp_bind]
    cases hloop : parseLoop iterations s with
    | ok _ u => exact (wp_of_ok hloop).mpr rfl
    | error _ _ => exact (wp_of_error hloop).mpr trivial
  exact (wp_of_ok hreturns).mp hempty

/-! ## A parser as its caller sees it -/

/-- A call of `parse`: the buffer, of any size, and iterations that are enough for it or not. -/
structure ParseCall where
  /-- The size of the buffer. -/
  size : Nat
  /-- The buffer. -/
  buffer : StaticBuffer size
  /-- The iterations that the loop may make, which `parse` sets by itself. -/
  iterations : Nat

/-- What a call shows: the ASDUs or the fault, and the offset of the buffer behind it. -/
structure Shown where
  /-- The ASDUs that the call returns, or what has ended it. -/
  result : Except Fault (List ASDU)
  /-- The offset of the buffer, where the next call would start. -/
  offset : UInt64

/-- One call on a parser. There is no parser any more when the call has not returned. -/
def call (k : ParseCall) : Option IecParser → Option Shown × Option IecParser
  | none => (none, none)
  | some parser =>
      match parseWithin k.iterations { parser, buffer := k.buffer } with
      | .ok asdus s => (some ⟨.ok asdus, s.buffer.offset⟩, some s.parser)
      | .error fault s => (some ⟨.error fault, s.buffer.offset⟩, none)

/-- A parser, of which only the results and the offsets are seen. -/
def object : Object ParseCall (Option IecParser) (Option Shown) := ⟨call⟩

/-- Parsers with the same ASDUs, or none at all: the counters may differ, the `sequence`s must
not. -/
def SameSequence (p q : Option IecParser) : Prop :=
  p.map (·.sequence) = q.map (·.sequence)

/-- **One call** shows the same of parsers with the same ASDUs, and leaves them with the same. -/
theorem call_same (k : ParseCall) {p q : Option IecParser} (hsame : SameSequence p q) :
    (call k p).1 = (call k q).1 ∧ SameSequence (call k p).2 (call k q).2 := by
  cases p with
  | none =>
      cases q with
      | none => exact ⟨rfl, rfl⟩
      | some q => cases hsame
  | some p =>
      cases q with
      | none => cases hsame
      | some q =>
          -- the two states of the call differ in the counter at most
          have hagree := lockstep_parseWithin k.iterations { parser := p, buffer := k.buffer }
            { parser := q, buffer := k.buffer } ⟨rfl, Option.some.inj hsame⟩
          obtain ⟨asdus, s, t, hp, hq, hbuffer, hsequence⟩ | ⟨fault, s, t, hp, hq, hbuffer, -⟩ :=
            hagree.ok_or_error
          · rw [call, call, hp, hq]
            dsimp only
            rw [hbuffer]
            exact ⟨rfl, congrArg some hsequence⟩
          · rw [call, call, hp, hq]
            dsimp only
            rw [hbuffer]
            exact ⟨rfl, rfl⟩

/-- Parsers with the same ASDUs cannot be told apart, by any sequence of calls. -/
theorem sameSequence_bisimulation : object.Bisimulation SameSequence where
  shows k _ _ hsame := (call_same k hsame).1
  keeps k _ _ hsame := (call_same k hsame).2

/-- A call on a parser leaves one without ASDUs, if it leaves one. -/
theorem sequence_of_call {k : ParseCall} {p : Option IecParser} {q : IecParser}
    (hcall : (call k p).2 = some q) : q.sequence = [] := by
  cases p with
  | none => cases hcall
  | some p =>
      rw [call] at hcall
      cases hreturns : parseWithin k.iterations { parser := p, buffer := k.buffer } with
      | ok asdus s =>
          rw [hreturns] at hcall
          cases hcall
          exact sequence_of_parseWithin hreturns
      | error fault s =>
          rw [hreturns] at hcall
          cases hcall

/-- **After every history** the parser is without ASDUs, by induction on the calls. -/
theorem sequence_of_after (history : List ParseCall) {p : Option IecParser} {q : IecParser}
    (hp : ∀ parser ∈ p, parser.sequence = []) (hafter : object.after history p = some q) :
    q.sequence = [] := by
  induction history generalizing p with
  | nil => exact hp q hafter
  | cons k history ih =>
      refine ih ?_ hafter
      intro parser hparser
      exact sequence_of_call hparser

/-- **A parser that was used behaves as a new one.** After any history of calls that have returned
it holds no ASDUs, and all further calls give the same results and leave the same offsets; and
inside a call a frame does not depend on the counter that the frame before it has left. -/
theorem reused_as_new (history : List ParseCall) {p : IecParser}
    (hreturned : object.after history (some new) = some p) :
    p.sequence = [] ∧
      (∀ further, object.observe further (some p) = object.observe further (some new)) ∧
      ∀ {size : Nat} (s : ParseState size) (left : UInt16),
        Agree SameButLength (parsePDU s)
          (parsePDU { s with parser.internalFrameLength := left }) := by
  -- a new parser has no ASDUs, and every call leaves none
  have hempty : p.sequence = [] := by
    refine sequence_of_after history ?_ hreturned
    rintro parser hparser
    cases hparser
    rfl
  refine ⟨hempty, ?_, ?_⟩
  · intro further
    exact sameSequence_bisimulation.observe_eq further (congrArg some hempty)
  · intro size s left
    exact lockstep_parsePDU s _ ⟨rfl, rfl⟩

end Calls

theorem halfCounted_size_lt : 32 < 2 ^ 63 := by decide

/-- A buffer with a frame that ends within its length, behind an Ethernet header. -/
def halfCounted : StaticBuffer 32 where
  data := #v[0, 0, 0, 0, 0, 0, 0, 0, 0, 0, 0, 0, 0x88, 0xba,
    0x40, 0, 0, 0x10, 0, 0, 0, 0, 0x60, 0x85, 0, 0, 0, 0, 0, 0, 0, 0]
  offset := 0
  written := 24
  size_lt := halfCounted_size_lt

/-- A parser whose counter was left at six by `halfCounted` behaves as a new one. -/
theorem reused_as_new_halfCounted :
    (⟨[], 6⟩ : IecParser).sequence = [] ∧
      (∀ further, (@object ⟨.littleEndian⟩).observe further (some ⟨[], 6⟩)
        = (@object ⟨.littleEndian⟩).observe further (some new)) ∧
      ∀ {size : Nat} (s : ParseState size) (left : UInt16),
        Agree SameButLength (@parsePDU size ⟨.littleEndian⟩ s)
          (@parsePDU size ⟨.littleEndian⟩ { s with parser.internalFrameLength := left }) :=
  @reused_as_new ⟨.littleEndian⟩ [⟨32, halfCounted, 25⟩] ⟨[], 6⟩ rfl

end IecParser

end Iec

end IecCore

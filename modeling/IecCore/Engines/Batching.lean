import IecCore.Engines.BpfEngine
import IecCore.Lib.Transition

/-! # Batching loses nothing

The loop of `engines::BPFEngine::run` gathers what the socket delivers into batches. Every byte
received is in exactly one of the buffers handed over or still in the engine's own. The size of the
buffer is a parameter here: 800 bytes are enough, which is the smallest one that the loop can use.

* **`iterationOf`** — an iteration of the loop, for a buffer of any size; the engine's own is the
  case of `bufferSize` (`iteration_eq`).
* **`Delivers buffer result`** — what `recvfrom` may return: no more bytes than it was given room for.
* **`Progress`**, **`engine`** — the loop as a transition system: a step is a result of `recvfrom`.
* **`Batched`**, **`Batched.step`** — the invariant of the loop, and that a step keeps it.
* **`batching`** — what holds at every call of `readTo` and of every buffer handed over.
* **`run_conserves`** — what the buffers of `run` hold is the beginning of what was received. -/

namespace IecCore

namespace BPFEngine

variable {size : Nat}

/-! ## The loop -/

/-- One iteration of the loop of `run` for a buffer of any size, with what `recvfrom` returns. -/
def iterationOf (buffer : StaticBuffer size) (result : Option (List UInt8)) :
    StaticBuffer size × Option (StaticBuffer size) :=
  let buffer := Socket.readTo result buffer
  if buffer.getFreeSize < UInt64.ofNat handOverBelow then (buffer.reset, some buffer)
  else (buffer, none)

/-- The iteration of the engine is the one for its size: `iteration buffer result = iterationOf
buffer result`. -/
theorem iteration_eq (buffer : Buffer) (result : Option (List UInt8)) :
    iteration buffer result = iterationOf buffer result := rfl

/-- What `recvfrom` may return into the free part of a buffer: an error, or some bytes, no more than
its size. -/
def Delivers (buffer : StaticBuffer size) : Option (List UInt8) → Prop
  | none => True
  | some received => received ≠ [] ∧ received.length ≤ buffer.getFreeSize.toNat

instance (buffer : StaticBuffer size) : DecidablePred (Delivers buffer)
  | none => .isTrue trivial
  | some _ => inferInstanceAs (Decidable (_ ∧ _))

/-- The engine between two iterations, with the history of what it has received and handed over. -/
structure Progress (size : Nat) where
  /-- The buffer of the engine, with what was received since the last hand-over. -/
  buffer : StaticBuffer size
  /-- The buffers handed over, in order. -/
  handed : List (StaticBuffer size)
  /-- All bytes received, in order. -/
  received : List UInt8

/-- The loop as a transition system, as far as it can be observed. -/
def engine (buffer : StaticBuffer size) : System (Progress size) (Option (List UInt8)) where
  init := ⟨buffer, [], []⟩
  step s result :=
    if Delivers s.buffer result then
      some {
        buffer := (iterationOf s.buffer result).1
        handed := s.handed ++ (iterationOf s.buffer result).2.toList
        received := s.received ++ result.getD [] }
    else none

/-- The step that a result of `recvfrom` makes, when it is one that the kernel can give. -/
theorem engine_step {start : StaticBuffer size} {s : Progress size}
    {result : Option (List UInt8)} (hresult : Delivers s.buffer result) :
    (engine start).step s result = some {
      buffer := (iterationOf s.buffer result).1
      handed := s.handed ++ (iterationOf s.buffer result).2.toList
      received := s.received ++ result.getD [] } :=
  if_pos hresult

/-- A buffer after its construction. The array is not initialised. -/
def fresh (data : Vector UInt8 size) (size_lt : size < 2 ^ 63) : StaticBuffer size where
  data := data
  offset := 0
  written := 0
  size_lt := size_lt

/-- The buffers handed over in a run of the loop are those that `run` hands over, in the same
order. -/
theorem handed_of_run {start : Buffer} {s t : Progress bufferSize}
    {results : List (Option (List UInt8))} (hrun : (engine start).run s results = some t) :
    t.handed = s.handed ++ run s.buffer results := by
  induction results generalizing s with
  | nil =>
      have hst : s = t := Option.some.inj hrun
      rw [← hst, run, List.append_nil]
  | cons result results ih =>
      obtain ⟨u, hstep, hrest⟩ := (engine start).run_cons_eq_some.mp hrun
      obtain ⟨-, hu⟩ := Option.ite_none_right_eq_some.mp hstep
      have hlater := ih hrest
      obtain rfl := Option.some.inj hu
      rw [hlater, run, iteration_eq, List.append_assoc]

/-! ## The written bytes -/

/-- The bytes of a buffer below its written offset, all of which are received ones. -/
def writtenBytes (b : StaticBuffer size) : List UInt8 := b.data.toList.take b.written.toNat

/-- Received bytes are written behind the others, when there is room for them. -/
theorem writtenBytes_readTo {b : StaticBuffer size} {received : List UInt8}
    (hroom : b.written.toNat < size) (hfits : received.length ≤ size - b.written.toNat) :
    writtenBytes (Socket.readTo (some received) b) = writtenBytes b ++ received ∧
      (Socket.readTo (some received) b).written.toNat = b.written.toNat + received.length := by
  obtain ⟨hdata, hwritten, -⟩ := Socket.readTo_some (b := b) received hroom
  rw [List.take_of_length_le hfits] at hdata
  have hend : (Socket.readTo (some received) b).written.toNat
      = b.written.toNat + received.length := by
    rw [hwritten]
    omega
  -- the written part of the array is what was there and what was received, and nothing else
  have hprefix : (writtenBytes b ++ received).length = b.written.toNat + received.length := by
    rw [writtenBytes, List.length_append, List.length_take, Vector.length_toList]
    omega
  refine ⟨?_, hend⟩
  rw [writtenBytes, hdata, hend]
  exact List.take_left' hprefix

/-! ## The invariant -/

/-- What holds between two iterations: the **invariant** of the loop. -/
structure Batched (s : Progress size) : Prop where
  /-- Nothing of the buffer was read: the engine only writes to it. -/
  offset : s.buffer.offset = 0
  /-- There is room for the next frame: at least `handOverBelow` bytes. -/
  room : s.buffer.written.toNat + handOverBelow ≤ size
  /-- A buffer was handed over when there was no room left. -/
  handed : ∀ b ∈ s.handed,
    b.offset = 0 ∧ size - handOverBelow < b.written.toNat ∧ b.written.toNat ≤ size
  /-- No byte was lost or repeated: what was handed over and what is in the buffer is what was
  received. -/
  conserved : s.handed.flatMap writtenBytes ++ writtenBytes s.buffer = s.received

/-- The buffer after a call of `readTo` holds what it held and what was received. -/
theorem Batched.readTo {s : Progress size} (h : Batched s) {result : Option (List UInt8)}
    (hresult : Delivers s.buffer result) :
    (Socket.readTo result s.buffer).offset = 0 ∧
    (Socket.readTo result s.buffer).written.toNat ≤ size ∧
    writtenBytes (Socket.readTo result s.buffer) = writtenBytes s.buffer ++ result.getD [] := by
  have hbelow : handOverBelow = 800 := rfl
  have hroom := h.room
  cases result with
  | none =>
      rw [Socket.readTo_none, Option.getD_none, List.append_nil]
      exact ⟨h.offset, by omega, rfl⟩
  | some received =>
      have hfits := hresult.2
      rw [StaticBuffer.toNat_getFreeSize (by omega)] at hfits
      obtain ⟨hbytes, hwritten⟩ := writtenBytes_readTo (by omega) hfits
      obtain ⟨-, -, hoffset⟩ := Socket.readTo_some (b := s.buffer) received (by omega)
      exact ⟨hoffset.trans h.offset, by omega, hbytes⟩

/-- **A step** keeps the invariant, whether it hands the buffer over or not. -/
theorem Batched.step {start : StaticBuffer size} {s t : Progress size} (h : Batched s)
    {result : Option (List UInt8)} (hstep : (engine start).step s result = some t) :
    Batched t := by
  obtain ⟨hresult, ht⟩ := Option.ite_none_right_eq_some.mp hstep
  obtain ⟨hoffset, hwritten, hbytes⟩ := h.readTo hresult
  have hroom := h.room
  have hlimit : (UInt64.ofNat handOverBelow).toNat = handOverBelow := rfl
  rw [← Option.some.inj ht]
  unfold iterationOf
  by_cases hfull : (Socket.readTo result s.buffer).getFreeSize < UInt64.ofNat handOverBelow
  · -- the buffer is handed over and starts again
    rw [if_pos hfull]
    rw [UInt64.lt_iff_toNat_lt, StaticBuffer.toNat_getFreeSize hwritten, hlimit] at hfull
    refine ⟨rfl, ?_, ?_, ?_⟩
    · show (0 : UInt64).toNat + handOverBelow ≤ size
      rw [UInt64.toNat_zero]
      omega
    · intro b hb
      rcases List.mem_append.mp hb with hbefore | hlast
      · exact h.handed b hbefore
      · rw [List.mem_singleton.mp hlast]
        exact ⟨hoffset, by omega, hwritten⟩
    · have hempty : writtenBytes (Socket.readTo result s.buffer).reset = [] := List.take_zero
      rw [hempty, List.append_nil, Option.toList_some, List.flatMap_append,
        List.flatMap_singleton, hbytes, ← List.append_assoc, h.conserved]
  · -- the engine goes on with it
    rw [if_neg hfull]
    rw [UInt64.lt_iff_toNat_lt, StaticBuffer.toNat_getFreeSize hwritten, hlimit] at hfull
    refine ⟨hoffset, ?_, ?_, ?_⟩
    · show (Socket.readTo result s.buffer).written.toNat + handOverBelow ≤ size
      omega
    · rw [Option.toList_none, List.append_nil]
      exact h.handed
    · rw [Option.toList_none, List.append_nil, hbytes, ← List.append_assoc, h.conserved]

/-- The invariant holds in every run, from a buffer of 800 bytes or more. -/
theorem batched_of_reachable (hsize : handOverBelow ≤ size) {data : Vector UInt8 size}
    {size_lt : size < 2 ^ 63} {s : Progress size}
    (reach : (engine (fresh data size_lt)).Reachable s) : Batched s := by
  have start : Batched (engine (fresh data size_lt)).init := by
    have hempty : writtenBytes (fresh data size_lt) = [] := List.take_zero
    refine ⟨rfl, ?_, fun _ hb => absurd hb List.not_mem_nil, hempty⟩
    show (0 : UInt64).toNat + handOverBelow ≤ size
    rw [UInt64.toNat_zero]
    omega
  exact (engine (fresh data size_lt)).reachable_invariant start (fun _ _ _ h => h.step) reach

/-- **Batching neither loses nor repeats received bytes.** For every size from 800 on and all
results of `recvfrom`: at every call of `readTo` the buffer was not read, has 800 free bytes and
somewhere to write to; nothing is written past the end; a buffer is handed over when there is less
room; and the buffers handed over and the engine's own hold all that was received, in order. -/
theorem batching (hsize : 800 ≤ size) {data : Vector UInt8 size} {size_lt : size < 2 ^ 63}
    {s : Progress size} (reach : (engine (fresh data size_lt)).Reachable s) :
    s.buffer.offset = 0 ∧ 800 ≤ s.buffer.getFreeSize.toNat ∧ s.buffer.getFree ≠ none ∧
    s.buffer.written.toNat ≤ size ∧
    (∀ result, Delivers s.buffer result →
      (Socket.readTo result s.buffer).written.toNat ≤ size) ∧
    (∀ b ∈ s.handed, b.offset = 0 ∧ size - 800 < b.written.toNat ∧ b.written.toNat ≤ size) ∧
    s.handed.flatMap writtenBytes ++ writtenBytes s.buffer = s.received := by
  have h : Batched s := batched_of_reachable hsize reach
  have hbelow : handOverBelow = 800 := rfl
  have hroom := h.room
  refine ⟨h.offset, ?_, ?_, by omega, ?_, h.handed, h.conserved⟩
  · rw [StaticBuffer.toNat_getFreeSize (by omega)]
    omega
  · -- there is room, so that the pointer that `recvfrom` writes to is not null
    rw [StaticBuffer.getFree, if_pos (by omega)]
    exact Option.some_ne_none _
  · intro result hresult
    exact (h.readTo hresult).2.1

/-- **The loop of the program**: when the results are such as `recvfrom` may return, the buffers of
8192 bytes that `run` hands over hold a beginning of what was received, in order. -/
theorem run_conserves (data : Vector UInt8 bufferSize) {s : Progress bufferSize}
    {results : List (Option (List UInt8))}
    (hrun : (engine (constructed data)).run (engine (constructed data)).init results = some s) :
    (run (constructed data) results).flatMap writtenBytes <+: s.received := by
  have hconserved := (batched_of_reachable (by decide) ⟨results, hrun⟩).conserved
  have hhanded : s.handed = run (constructed data) results := handed_of_run hrun
  rw [hhanded] at hconserved
  exact ⟨_, hconserved⟩

/-- A buffer of 800 bytes, the smallest size of the property, in which one byte is a batch. -/
def shortest : StaticBuffer 800 := fresh (Vector.replicate 800 0) (by decide)

/-- The engine after one byte was received, which it has handed over. -/
def oneReceived : Progress 800 where
  buffer := (iterationOf shortest (some [7])).1
  handed := (iterationOf shortest (some [7])).2.toList
  received := [7]

/-- A run in which a buffer is handed over: `batching` for the buffer of 800 bytes. -/
theorem batching_one :
    oneReceived.buffer.offset = 0 ∧ 800 ≤ oneReceived.buffer.getFreeSize.toNat ∧
    oneReceived.buffer.getFree ≠ none ∧ oneReceived.buffer.written.toNat ≤ 800 ∧
    (∀ result, Delivers oneReceived.buffer result →
      (Socket.readTo result oneReceived.buffer).written.toNat ≤ 800) ∧
    (∀ b ∈ oneReceived.handed,
      b.offset = 0 ∧ 800 - 800 < b.written.toNat ∧ b.written.toNat ≤ 800) ∧
    oneReceived.handed.flatMap writtenBytes ++ writtenBytes oneReceived.buffer =
      oneReceived.received := by
  have hdelivers : Delivers shortest (some [7]) := ⟨List.cons_ne_nil _ _, by decide⟩
  have hstep : (engine shortest).step ⟨shortest, [], []⟩ (some [7]) = some oneReceived :=
    engine_step hdelivers
  have hrun : (engine shortest).run (engine shortest).init [some [7]] = some oneReceived :=
    (engine shortest).run_cons_eq_some.mpr ⟨oneReceived, hstep, rfl⟩
  exact batching (le_refl 800) ⟨_, hrun⟩

end BPFEngine

end IecCore

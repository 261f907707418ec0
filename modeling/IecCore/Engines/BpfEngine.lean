import IecCore.Utils.Socket
import Mathlib.Data.List.ReduceOption
import Mathlib.Data.List.Forall2

/-! # The engine

`engines::BPFEngine::run` receives frames into its buffer and hands the buffer over to the exchange
when less than 800 bytes of it are free. What is handed over depends on the lengths of the frames
only; the bytes of a frame that the buffer has no room for are cut by the kernel.

* **`BPFEngine.iteration`**, **`BPFEngine.run`** — one iteration of the loop, with what waits at the
  socket, and the buffers that are handed over.
* **`batches pending frames`** — the frames received, grouped by their lengths alone; `batches_spec`
  gives the sizes of the groups, and `flatten_batches` says that no frame is in two of them.
* **`Holds buffer batch`** — a buffer holds the frames of a batch, as far as there is room.
* **`run_holds`** — the buffers handed over hold the batches, in order. -/

namespace IecCore

namespace BPFEngine

/-- `buffer_size`, the size of the buffers of the engine, in bytes. -/
def bufferSize : Nat := 8192

/-- The buffer of the engine, a `StaticBuffer` of `bufferSize` bytes, which it copies into the
exchange. -/
abbrev Buffer := StaticBuffer bufferSize

/-- The buffer is handed over when fewer bytes are free, so that a frame has room in every
iteration. -/
def handOverBelow : Nat := 800

/-- One iteration of the loop of `run`, with what waits at the socket: the buffer after it, and the
buffer that is handed over, if one is. `set` moves the buffer, which copies it. -/
def iteration (buffer : Buffer) (waiting : Option (List UInt8)) : Buffer × Option Buffer :=
  let buffer := Socket.readTo waiting buffer
  -- the next frame may need more than what is free
  if buffer.getFreeSize < UInt64.ofNat handOverBelow then (buffer.reset, some buffer)
  else (buffer, none)

/-- `run` until it is stopped, with what waits at the socket in each iteration: the buffers handed
over. -/
def run : Buffer → List (Option (List UInt8)) → List Buffer
  | _, [] => []
  | buffer, waiting :: later =>
      (iteration buffer waiting).2.toList ++ run (iteration buffer waiting).1 later

/-- An iteration hands over one buffer at most, so that there are no more buffers than
iterations. -/
theorem length_run_le (buffer : Buffer) (waiting : List (Option (List UInt8))) :
    (run buffer waiting).length ≤ waiting.length := by
  induction waiting generalizing buffer with
  | nil => exact le_refl _
  | cons head later ih =>
      have hone := Option.length_toList_le (o := (iteration buffer head).2)
      have hlater := ih (iteration buffer head).1
      rw [run, List.length_append, List.length_cons]
      omega

/-- A buffer after its construction. The array is not initialised, and may hold anything. -/
def constructed (data : Vector UInt8 bufferSize) : Buffer where
  data := data
  offset := 0
  written := 0
  size_lt := by decide

/-! ## Batches -/

/-- The frames received, grouped into those that are handed over together; `pending` are those that
are in the buffer already. A group ends when its bytes leave less than 800 of the buffer. -/
def batches : (pending frames : List (List UInt8)) → List (List (List UInt8))
  | _, [] => []
  | pending, frame :: frames =>
      if bufferSize < (pending ++ [frame]).flatten.length + handOverBelow then
        (pending ++ [frame]) :: batches [] frames
      else batches (pending ++ [frame]) frames

/-- Every batch has room for 800 bytes before its last frame, and not behind it. -/
theorem batches_spec {pending frames : List (List UInt8)}
    (hpending : pending.flatten.length + handOverBelow ≤ bufferSize) :
    ∀ batch ∈ batches pending frames, (∀ frame ∈ batch, frame ∈ pending ++ frames) ∧
      ∃ init last, batch = init ++ [last] ∧
        init.flatten.length + handOverBelow ≤ bufferSize ∧
        bufferSize < batch.flatten.length + handOverBelow := by
  induction frames generalizing pending with
  | nil => exact fun batch hmem => by cases hmem
  | cons frame frames ih =>
      intro batch hmem
      rw [batches] at hmem
      have hsplit : pending ++ frame :: frames = pending ++ [frame] ++ frames := by
        rw [List.append_assoc, List.singleton_append]
      -- the frame ends a batch, or waits with those before it
      by_cases hfull : bufferSize < (pending ++ [frame]).flatten.length + handOverBelow
      · rw [if_pos hfull] at hmem
        rcases List.mem_cons.mp hmem with rfl | hlater
        · refine ⟨fun f hf => ?_, pending, frame, rfl, hpending, hfull⟩
          rw [hsplit]
          exact List.mem_append_left _ hf
        · obtain ⟨hframes, hbatch⟩ := ih (by decide) batch hlater
          refine ⟨fun f hf => ?_, hbatch⟩
          rw [hsplit]
          exact List.mem_append_right _ (hframes f hf)
      · rw [if_neg hfull] at hmem
        rw [hsplit]
        exact ih (by omega) batch hmem

/-- **The batches are a beginning of the frames**: `(batches pending frames).flatten` and the frames
that stay in the engine's own buffer, which leave 800 bytes of it free, are all of them in order. -/
theorem flatten_batches {pending frames : List (List UInt8)}
    (hpending : pending.flatten.length + handOverBelow ≤ bufferSize) :
    ∃ rest, (batches pending frames).flatten ++ rest = pending ++ frames ∧
      rest.flatten.length + handOverBelow ≤ bufferSize := by
  induction frames generalizing pending with
  | nil =>
      refine ⟨pending, ?_, hpending⟩
      rw [batches, List.flatten_nil, List.nil_append, List.append_nil]
  | cons frame frames ih =>
      have hsplit : pending ++ frame :: frames = pending ++ [frame] ++ frames := by
        rw [List.append_assoc, List.singleton_append]
      rw [batches, hsplit]
      by_cases hfull : bufferSize < (pending ++ [frame]).flatten.length + handOverBelow
      · -- the batch is full, and the next one starts empty
        have hempty : ([] : List (List UInt8)).flatten.length + handOverBelow ≤ bufferSize := by decide
        obtain ⟨rest, hrest, hroom⟩ := ih hempty
        refine ⟨rest, ?_, hroom⟩
        rw [if_pos hfull, List.flatten_cons, List.append_assoc (pending ++ [frame]), hrest,
          List.nil_append]
      · rw [if_neg hfull]
        exact ih (by omega)

/-- Frames that fill the buffer with the last of them are one batch. -/
theorem batches_append_singleton {pending frames : List (List UInt8)} {last : List UInt8}
    (hroom : (pending ++ frames).flatten.length + handOverBelow ≤ bufferSize)
    (hfull : bufferSize < (pending ++ frames ++ [last]).flatten.length + handOverBelow) :
    batches pending (frames ++ [last]) = [pending ++ frames ++ [last]] := by
  induction frames generalizing pending with
  | nil =>
      rw [List.append_nil] at hfull ⊢
      rw [List.nil_append, batches, if_pos hfull, batches]
  | cons frame frames ih =>
      have hsplit : pending ++ frame :: frames = pending ++ [frame] ++ frames := by
        rw [List.append_assoc, List.singleton_append]
      rw [hsplit] at hroom hfull ⊢
      have hstay : ¬ bufferSize < (pending ++ [frame]).flatten.length + handOverBelow := by
        rw [List.flatten_append, List.length_append] at hroom
        omega
      rw [List.cons_append, batches, if_neg hstay, ih hroom hfull]

/-- A buffer **holds** frames: it starts with their bytes, as far as there is room, and none of them
was read. -/
structure Holds (buffer : Buffer) (frames : List (List UInt8)) : Prop where
  /-- The bytes of the frames are at the start of the array, as far as it goes. -/
  contents : frames.flatten.take bufferSize <+: buffer.data.toList
  /-- The offset for writing is behind the bytes, or at the end of the array. -/
  written : buffer.written.toNat = min bufferSize frames.flatten.length
  /-- The offset for reading is at the start. -/
  offset : buffer.offset = 0

/-- A buffer that the bytes fit into holds them all, and its last byte is not one of them. -/
theorem Holds.of_fits {buffer : Buffer} {batch : List (List UInt8)}
    (hholds : Holds buffer batch) (hfits : batch.flatten.length < bufferSize) :
    batch.flatten <+: buffer.data.toList ∧ buffer.written.toNat = batch.flatten.length := by
  have hcontents := hholds.contents
  rw [List.take_of_length_le hfits.le] at hcontents
  exact ⟨hcontents, hholds.written.trans (Nat.min_eq_right hfits.le)⟩

/-- A buffer that they do not fit into is full, and its last byte is not read. -/
theorem Holds.of_full {buffer : Buffer} {batch : List (List UInt8)}
    (hholds : Holds buffer batch) (hfull : bufferSize ≤ batch.flatten.length) :
    buffer.readable = batch.flatten.take (bufferSize - 1) ∧ buffer.written.toNat = bufferSize := by
  have hcontents : batch.flatten.take bufferSize = buffer.data.toList := by
    refine hholds.contents.eq_of_length ?_
    rw [List.length_take, Vector.length_toList]
    exact Nat.min_eq_left hfull
  refine ⟨?_, hholds.written.trans (Nat.min_eq_left hfull)⟩
  rw [StaticBuffer.readable, ← hcontents, List.take_take, Nat.min_eq_left (Nat.sub_le ..)]

/-- An empty buffer holds no frame, whatever its array has in it. -/
theorem holds_nil {buffer : Buffer} (hwritten : buffer.written = 0) (hoffset : buffer.offset = 0) :
    Holds buffer [] where
  contents := List.nil_prefix
  written := by
    rw [hwritten]
    rfl
  offset := hoffset

/-- A frame that is received is held behind the others, the part of it that there is room for. -/
theorem holds_readTo {buffer : Buffer} {frames : List (List UInt8)} (frame : List UInt8)
    (hholds : Holds buffer frames) (hroom : frames.flatten.length < bufferSize) :
    Holds (Socket.readTo (some frame) buffer) (frames ++ [frame]) := by
  have hwritten : buffer.written.toNat = frames.flatten.length := by
    rw [hholds.written, Nat.min_eq_right hroom.le]
  -- the frames before have room, so that the written part of the array is theirs
  have hcontents : buffer.data.toList.take frames.flatten.length = frames.flatten := by
    have hprefix := List.prefix_iff_eq_take.mp hholds.contents
    rw [List.take_of_length_le hroom.le] at hprefix
    exact hprefix.symm
  obtain ⟨hdata, hend, hstart⟩ := Socket.readTo_some (b := buffer) frame (by omega)
  rw [hwritten] at hdata hend
  rw [hcontents] at hdata
  have hflatten : (frames ++ [frame]).flatten = frames.flatten ++ frame := by
    rw [List.flatten_append, List.flatten_singleton]
  refine ⟨?_, ?_, hstart.trans hholds.offset⟩
  · rw [hdata, hflatten, List.take_append, List.take_of_length_le hroom.le]
    exact List.prefix_append ..
  · rw [hend, hflatten, List.length_append]

/-- The free size of a buffer that holds frames, by the sum of their lengths. -/
theorem getFreeSize_lt_iff {buffer : Buffer} {frames : List (List UInt8)}
    (hholds : Holds buffer frames) :
    buffer.getFreeSize < UInt64.ofNat handOverBelow ↔
      bufferSize < frames.flatten.length + handOverBelow := by
  have hwritten := hholds.written
  have hsize : bufferSize = 8192 := rfl
  have hbelow : handOverBelow = 800 := rfl
  have hfree : buffer.getFreeSize.toNat = bufferSize - buffer.written.toNat :=
    StaticBuffer.toNat_getFreeSize (by omega)
  have hlimit : (UInt64.ofNat handOverBelow).toNat = handOverBelow := rfl
  rw [UInt64.lt_iff_toNat_lt, hfree, hlimit]
  omega

/-- **The buffers handed over** hold the batches, in order, whatever waits at the socket. -/
theorem run_holds {buffer : Buffer} {pending : List (List UInt8)} (hholds : Holds buffer pending)
    (hpending : pending.flatten.length + handOverBelow ≤ bufferSize)
    (waiting : List (Option (List UInt8))) :
    List.Forall₂ Holds (run buffer waiting) (batches pending waiting.reduceOption) := by
  have hbelow : handOverBelow = 800 := rfl
  induction waiting generalizing buffer pending with
  | nil => exact .nil
  | cons head later ih =>
      rw [run, iteration]
      cases head with
      | none =>
          -- nothing is received, and there was room enough before
          have hstay : ¬ buffer.getFreeSize < UInt64.ofNat handOverBelow := fun hlt => by
            have hfull := (getFreeSize_lt_iff hholds).mp hlt
            omega
          rw [Socket.readTo_none, if_neg hstay, List.reduceOption_cons_of_none]
          exact ih hholds hpending
      | some frame =>
          have hread := holds_readTo frame hholds (by omega)
          rw [List.reduceOption_cons_of_some, batches]
          by_cases hfull : bufferSize < (pending ++ [frame]).flatten.length + handOverBelow
          · rw [if_pos ((getFreeSize_lt_iff hread).mpr hfull), if_pos hfull]
            exact .cons hread (ih (holds_nil rfl rfl) (by decide))
          · rw [if_neg (mt (getFreeSize_lt_iff hread).mp hfull), if_neg hfull]
            exact ih hread (by omega)

end BPFEngine

end IecCore

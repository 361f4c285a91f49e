import Mathlib.Algebra.Order.BigOperators.Group.List
import Skaidb.Codec.Sink
import Skaidb.Proto.Frame

/-!
# Frames on a stream

How frames are written to a stream that takes them in parts and read back into a buffer that
is used again. A small frame is one buffer written to the end, a large one is written as two
buffers without a copy, and a frame built in place is written like a small one.
-/

namespace Skaidb

open Codec Output

/-- A stream that frames are written to, call by call, each of which may take a part. -/
abbrev Stream := Sink IoError UInt8

/-! ## Writing -/

/-- Payloads up to this size are written in one buffer with their length. -/
def coalesceLimit : ℕ := 8 * 1024

/-- The call was interrupted by a signal, after which `write_all` tries again. -/
def IoError.isInterrupted (e : IoError) : Bool := e.kind == .interrupted

namespace Stream

/-- Write all of a buffer; calls that are interrupted are made again. -/
def writeAll (fuel : ℕ) (w : Stream) (buf : List UInt8) : Option (Except IoError Unit × Stream) :=
  Sink.writeAll IoError.isInterrupted ⟨.writeZero, "failed to write whole buffer"⟩ fuel w buf

/-- Write all of two buffers by vectored calls, until nothing is left of either; no error is passed
over. -/
def writeAllVectored (w : Stream) (head body : List UInt8) : Except IoError Unit × Stream :=
  if head = [] ∧ body = [] then (.ok (), w)
  else match w.writeVectored [head, body] with
    | (.error e, w) => (.error e, w)
    | (.ok n, w) =>
      if n = 0 then (.error ⟨.writeZero, "failed to write whole frame"⟩, w)
      else if n ≥ head.length then writeAllVectored w [] (body.drop (n - head.length))
      else writeAllVectored w (head.drop n) body
termination_by head.length + body.length
decreasing_by
  · rename_i hsome hn _
    have hpos : 0 < head.length + body.length := by
      rcases Nat.eq_zero_or_pos (head.length + body.length) with hzero | hpos
      · refine absurd ⟨?_, ?_⟩ hsome
        · exact List.eq_nil_of_length_eq_zero (by omega)
        · exact List.eq_nil_of_length_eq_zero (by omega)
      · exact hpos
    simp only [List.length_nil, List.length_drop]
    omega
  · simp only [List.length_drop]
    omega

/-- What follows the last write of a frame. -/
def thenFlush : Option (Except IoError Unit × Stream) → Option (Except IoError Unit × Stream)
  | some (.ok (), w) => some w.flush
  | out => out

/-- `write_frame`: a payload as one frame, coalesced up to a limit and written in two buffers above
it. -/
def writeFrame (fuel : ℕ) (w : Stream) (payload : List UInt8) :
    Option (Except IoError Unit × Stream) :=
  if payload.length > maxFrameLen then some (.error ⟨.invalidInput, "frame too large"⟩, w)
  else
    let len := beBytes 4 payload.length
    if payload.length ≤ coalesceLimit then thenFlush (writeAll fuel w (len ++ payload))
    else thenFlush (some (writeAllVectored w len payload))

/-- Start a frame in a buffer, whatever it held: four bytes for the length. -/
def beginFrame (_buf : List UInt8) : List UInt8 := List.replicate 4 0

/-- `finish_frame`: fill in the length of a frame that was built in a buffer, and write it. -/
def finishFrame (fuel : ℕ) (w : Stream) (buf : List UInt8) :
    Option (Except IoError Unit × Stream) :=
  let payloadLen := buf.length - 4
  if payloadLen > maxFrameLen then some (.error ⟨.invalidInput, "frame too large"⟩, w)
  else thenFlush (writeAll fuel w (beBytes 4 payloadLen ++ buf.drop 4))

end Stream

/-! ## Reading -/

/-- Read exactly `n` bytes, or fail where the input ends before. -/
def readExact (input : List UInt8) (n : ℕ) : Except IoError (List UInt8 × List UInt8) :=
  if n ≤ input.length then .ok (input.take n, input.drop n)
  else .error ⟨.unexpectedEof, "failed to fill whole buffer"⟩

/-- Read one frame into a buffer; what is left to read and what the buffer holds. -/
def readFrameInto (input buf : List UInt8) : Except IoError (List UInt8 × List UInt8) := do
  let (lenBuf, input) ← readExact input 4
  let len := ofBeBytes lenBuf
  if len > maxFrameLen then .error ⟨.invalidData, "frame too large"⟩
  else
    let buf := if buf.length < len then buf ++ List.replicate (len - buf.length) 0 else buf
    let buf := buf.take len
    let (bytes, input) ← readExact input buf.length
    pure (input, bytes ++ buf.drop bytes.length)

/-- Read a number of frames into one buffer; what it held after each and what is left. -/
def readFrames : ℕ → List UInt8 → List UInt8 → Except IoError (List (List UInt8) × List UInt8)
  | 0, input, _ => pure ([], input)
  | count + 1, input, buf => do
    let (input, buf) ← readFrameInto input buf
    let (payloads, input) ← readFrames count input buf
    pure (buf :: payloads, input)

/-! ## Two buffers -/

namespace Stream

variable {w : Stream}

/-- One call of the loop over two buffers: what is left of them is what was not taken. -/
theorem writeAllVectored_accept {n : ℕ} (h : w.answers 0 = .accept (n + 1))
    (head body : List UInt8) (hsome : head ++ body ≠ []) :
    ∃ head' body', head' ++ body' = (head ++ body).drop (n + 1) ∧
      writeAllVectored w head body = writeAllVectored
        ⟨fun i => w.answers (i + 1), w.flushes, w.wire ++ (head ++ body).take (n + 1)⟩
        head' body' := by
  have hpos : 0 < (head ++ body).length := List.length_pos_iff.mpr hsome
  rw [List.length_append] at hpos
  have hcond : ¬ (head = [] ∧ body = []) := by
    rintro ⟨rfl, rfl⟩
    exact hsome rfl
  rw [writeAllVectored, if_neg hcond]
  simp only [Sink.writeVectored, Sink.write, h, List.flatten_cons, List.flatten_nil,
    List.append_nil, List.length_append]
  have hn : min (n + 1) (head.length + body.length) ≠ 0 := by omega
  rw [if_neg hn]
  split
  · next hle =>
    -- The cut is at the end of the head or in the body.
    refine ⟨_, _, ?_, rfl⟩
    rw [List.drop_append, List.nil_append, List.drop_of_length_le (by omega : head.length ≤ n + 1),
      List.nil_append]
    rcases Nat.le_total (n + 1) (head.length + body.length) with hmin | hmin
    · rw [Nat.min_eq_left hmin]
    · rw [Nat.min_eq_right hmin, List.drop_of_length_le (by omega),
        List.drop_of_length_le (by omega)]
  · next hlt =>
    -- The cut is in the head.
    have hmin : min (n + 1) (head.length + body.length) = n + 1 := by omega
    refine ⟨_, _, ?_, rfl⟩
    rw [hmin, List.drop_append_of_le_length (by omega)]

/-- When the first call of the loop over two buffers fails, the loop returns its error. -/
theorem writeAllVectored_fail {e : IoError} (h : w.answers 0 = .fail e) (head body : List UInt8)
    (hsome : head ++ body ≠ []) :
    ∃ w', writeAllVectored w head body = (.error e, w') := by
  have hcond : ¬ (head = [] ∧ body = []) := by
    rintro ⟨rfl, rfl⟩
    exact hsome rfl
  rw [writeAllVectored, if_neg hcond]
  simp only [Sink.writeVectored, Sink.write, h]
  exact ⟨_, rfl⟩

/-- **Two buffers.** A patient stream receives both unless a call fails before it has. -/
theorem writeAllVectored_cases {interrupts : ℕ}
    (h : w.Patient IoError.isInterrupted interrupts) (head body : List UInt8) :
    (¬ w.FailsWithin (head ++ body).length ∧
      ∃ w' interrupts', writeAllVectored w head body = (.ok (), w') ∧
        w'.wire = w.wire ++ (head ++ body) ∧ interrupts' ≤ interrupts ∧
          w'.Patient IoError.isInterrupted interrupts') ∨
    (w.FailsWithin (head ++ body).length ∧
      ∃ e w', e.isInterrupted = true ∧ writeAllVectored w head body = (.error e, w')) := by
  induction hlen : (head ++ body).length using Nat.strongRecOn generalizing w head body interrupts
    with
  | _ total ih =>
    by_cases hempty : head ++ body = []
    · obtain ⟨rfl, rfl⟩ := List.append_eq_nil_iff.mp hempty
      obtain rfl : 0 = total := hlen
      refine .inl ⟨Sink.not_failsWithin_zero, w, interrupts, ?_, by simp, Nat.le_refl _, h⟩
      rw [writeAllVectored]
      simp
    · have hpos : 0 < total := hlen ▸ List.length_pos_iff.mpr hempty
      rcases h.writes 0 with ⟨n, hn⟩ | ⟨e, he, hretry, -⟩
      · obtain ⟨head', body', hrest, hstep⟩ := writeAllVectored_accept hn head body hempty
        have hlen' : (head' ++ body').length = total - (n + 1) := by
          rw [hrest, List.length_drop, hlen]
        have htail := h.tail (w.wire ++ (head ++ body).take (n + 1))
        rw [Sink.failsWithin_of_accept hn (w.wire ++ (head ++ body).take (n + 1)), hstep]
        refine (ih _ (by omega) htail head' body' hlen').imp ?_ id
        rintro ⟨hfine, w', k, hout, hwire, hk, hw'⟩
        refine ⟨hfine, w', k, hout, ?_, by omega, hw'⟩
        rw [hwire, hrest]
        simp
      · obtain ⟨w', hout⟩ := writeAllVectored_fail he head body hempty
        exact .inr ⟨Sink.failsWithin_of_fail he hpos, e, w', hretry, hout⟩

/-! ## One frame -/

/-- The bytes of a frame: the length of the payload, most significant byte first, and the
payload. -/
def frameBytes (payload : List UInt8) : List UInt8 := beBytes 4 payload.length ++ payload

/-- A frame is four bytes of length and the payload, which is what a reader has to wait for. -/
theorem length_frameBytes (payload : List UInt8) :
    (frameBytes payload).length = 4 + payload.length := by
  simp [frameBytes]

/-- The stream received the bytes and is as patient as before. -/
def Received (w : Stream) (interrupts : ℕ) (bytes : List UInt8)
    (out : Option (Except IoError Unit × Stream)) : Prop :=
  ∃ w' interrupts', out = some (.ok (), w') ∧ w'.wire = w.wire ++ bytes ∧
    interrupts' ≤ interrupts ∧ w'.Patient IoError.isInterrupted interrupts'

/-- Bytes that were received stay so when the stream is flushed after the last write. -/
theorem Received.thenFlush {interrupts : ℕ} {bytes : List UInt8}
    {out : Option (Except IoError Unit × Stream)} (h : Received w interrupts bytes out) :
    Received w interrupts bytes (thenFlush out) := by
  obtain ⟨w', k, rfl, hwire, hk, hw'⟩ := h
  obtain ⟨hok, hsame, hflushed⟩ := hw'.flush
  refine ⟨w'.flush.2, k, ?_, hsame.trans hwire, hk, hflushed⟩
  rw [Stream.thenFlush, ← hok]

/-- A patient writer receives the whole of one buffer. -/
theorem received_writeAll {interrupts fuel : ℕ}
    (h : w.Patient IoError.isInterrupted interrupts) (buf : List UInt8)
    (hfuel : interrupts + buf.length ≤ fuel) :
    Received w interrupts buf (writeAll fuel w buf) :=
  Sink.writeAll_ok h buf hfuel

/-- A frame is received when it is small or no call fails before it is out. -/
theorem received_writeFrame {interrupts fuel : ℕ}
    (h : w.Patient IoError.isInterrupted interrupts) {payload : List UInt8}
    (hlen : payload.length ≤ maxFrameLen)
    (hcond : payload.length ≤ coalesceLimit ∨ ¬ w.FailsWithin (4 + payload.length))
    (hfuel : interrupts + (4 + payload.length) ≤ fuel) :
    Received w interrupts (frameBytes payload) (writeFrame fuel w payload) := by
  rw [← length_frameBytes] at hfuel
  rw [writeFrame, if_neg (Nat.not_lt.mpr hlen)]
  split
  · exact (received_writeAll h _ hfuel).thenFlush
  · next hlarge =>
    have hfine : ¬ w.FailsWithin (frameBytes payload).length := by
      rw [length_frameBytes]
      exact hcond.resolve_left hlarge
    rcases writeAllVectored_cases h (beBytes 4 payload.length) payload with
      ⟨-, w', k, hout, hw'⟩ | ⟨hfails, -⟩
    · exact Received.thenFlush ⟨w', k, congrArg some hout, hw'⟩
    · exact absurd hfails hfine

/-- A large frame is given up when a call is interrupted before it is out. -/
theorem writeFrame_interrupted {interrupts : ℕ}
    (h : w.Patient IoError.isInterrupted interrupts) {payload : List UInt8}
    (hlen : payload.length ≤ maxFrameLen) (hlarge : coalesceLimit < payload.length)
    (hfails : w.FailsWithin (4 + payload.length)) (fuel : ℕ) :
    ∃ e w', e.isInterrupted = true ∧ writeFrame fuel w payload = some (.error e, w') := by
  rw [← length_frameBytes] at hfails
  rw [writeFrame, if_neg (Nat.not_lt.mpr hlen)]
  dsimp only
  rw [if_neg (Nat.not_le.mpr hlarge)]
  rcases writeAllVectored_cases h (beBytes 4 payload.length) payload with
    ⟨hfine, -⟩ | ⟨-, e, w', he, hout⟩
  · exact absurd hfails hfine
  · refine ⟨e, w', he, ?_⟩
    rw [hout]
    rfl

/-- A frame built in place in a buffer is received whole by a writer that is patient with it. -/
theorem received_finishFrame {interrupts fuel : ℕ}
    (h : w.Patient IoError.isInterrupted interrupts) {payload : List UInt8}
    (hlen : payload.length ≤ maxFrameLen) (old : List UInt8)
    (hfuel : interrupts + (4 + payload.length) ≤ fuel) :
    Received w interrupts (frameBytes payload)
      (finishFrame fuel w (beginFrame old ++ payload)) := by
  rw [← length_frameBytes] at hfuel
  have hpayload : (beginFrame old ++ payload).length - 4 = payload.length := by simp [beginFrame]
  have hdrop : (beginFrame old ++ payload).drop 4 = payload := by simp [beginFrame]
  rw [finishFrame, hpayload, hdrop, if_neg (Nat.not_lt.mpr hlen)]
  exact (received_writeAll h _ hfuel).thenFlush

/-- A frame above the limit is refused before a call is made. -/
theorem writeFrame_refuses {payload : List UInt8} (hlarge : maxFrameLen < payload.length)
    (fuel : ℕ) (w : Stream) :
    writeFrame fuel w payload = some (.error ⟨.invalidInput, "frame too large"⟩, w) := by
  rw [writeFrame, if_pos hlarge]

/-- A payload above the frame limit is also refused when it was built in place. -/
theorem finishFrame_refuses {payload : List UInt8} (hlarge : maxFrameLen < payload.length)
    (fuel : ℕ) (w : Stream) (old : List UInt8) :
    finishFrame fuel w (beginFrame old ++ payload) =
      some (.error ⟨.invalidInput, "frame too large"⟩, w) := by
  have hpayload : (beginFrame old ++ payload).length - 4 = payload.length := by simp [beginFrame]
  rw [finishFrame, hpayload, if_pos hlarge]

/-- The stream receives what `write_frame` puts on it as a whole, and what is refused as a
whole is refused with nothing written. -/
theorem writeFrame_refines (h : w.Accepts) (payload : List UInt8) :
    (∀ bytes, Skaidb.writeFrame payload = .ok bytes → ∃ enough, ∀ fuel ≥ enough, ∃ w',
      writeFrame fuel w payload = some (.ok (), w') ∧ w'.wire = w.wire ++ bytes) ∧
    ∀ e, Skaidb.writeFrame payload = .error e →
      ∀ fuel, writeFrame fuel w payload = some (.error e, w) := by
  unfold Skaidb.writeFrame
  by_cases hlarge : payload.length > maxFrameLen
  · rw [if_pos hlarge]
    refine ⟨fun bytes hbytes => ?_, fun e he fuel => ?_⟩
    · cases hbytes
    · cases he
      exact writeFrame_refuses hlarge fuel w
  · rw [if_neg hlarge]
    refine ⟨fun bytes hbytes => ?_, fun e he => ?_⟩
    · cases hbytes
      refine ⟨0 + (4 + payload.length), fun fuel hfuel => ?_⟩
      obtain ⟨w', -, hout, hwire, -⟩ := received_writeFrame (h.patient IoError.isInterrupted)
        (Nat.not_lt.mp hlarge) (.inr (h.not_failsWithin _)) hfuel
      exact ⟨w', hout, hwire⟩
    · cases he

/-! ## A run of frames -/

/-- One way to write a frame: whole, or built in place in a buffer from parts. -/
inductive FrameWrite where
  | whole (payload : List UInt8)
  | inPlace (old : List UInt8) (parts : List (List UInt8))

/-- The payload that a way of writing a frame writes. -/
def FrameWrite.payload : FrameWrite → List UInt8
  | .whole payload => payload
  | .inPlace _ parts => parts.flatten

/-- Write a frame in one of the two ways that the source has. -/
def FrameWrite.run (fuel : ℕ) (w : Stream) : FrameWrite → Option (Except IoError Unit × Stream)
  | .whole payload => writeFrame fuel w payload
  | .inPlace old parts => finishFrame fuel w (parts.foldl (· ++ ·) (beginFrame old))

/-- Write frames one after another until one is refused. -/
def writeFrames (fuel : ℕ) : Stream → List FrameWrite → Option (Except IoError Unit × Stream)
  | w, [] => some (.ok (), w)
  | w, f :: frames =>
    match f.run fuel w with
    | some (.ok (), w') => writeFrames fuel w' frames
    | out => out

/-- A frame of either kind is received by a stream that takes parts. -/
theorem received_run {fuel : ℕ} (h : w.Accepts) {f : FrameWrite}
    (hlen : f.payload.length ≤ maxFrameLen) (hfuel : 4 + f.payload.length ≤ fuel) :
    Received w 0 (frameBytes f.payload) (f.run fuel w) := by
  have hpatient := h.patient IoError.isInterrupted
  have hfuel' : 0 + (4 + f.payload.length) ≤ fuel := by omega
  cases f with
  | whole payload =>
    exact received_writeFrame hpatient hlen (.inr (h.not_failsWithin _)) hfuel'
  | inPlace old parts =>
    have hparts : parts.foldl (· ++ ·) (beginFrame old) = beginFrame old ++ parts.flatten := by
      simpa using @List.foldl_append_eq_append _ _ parts id (beginFrame old)
    rw [FrameWrite.run, hparts]
    exact received_finishFrame hpatient hlen old hfuel'

/-- Frames that a writer accepts are received one after another, whole and in their order. -/
theorem received_writeFrames {fuel : ℕ} (h : w.Accepts) (frames : List FrameWrite)
    (hlen : ∀ f ∈ frames, f.payload.length ≤ maxFrameLen)
    (hfuel : ∀ f ∈ frames, 4 + f.payload.length ≤ fuel) :
    Received w 0 (frames.map fun f => frameBytes f.payload).flatten
      (writeFrames fuel w frames) := by
  induction frames generalizing w with
  | nil => exact ⟨w, 0, rfl, by simp, Nat.le_refl 0, h.patient _⟩
  | cons f frames ih =>
    obtain ⟨w₁, k₁, hout, hwire, hk₁, hw₁⟩ :=
      received_run h (hlen f List.mem_cons_self) (hfuel f List.mem_cons_self)
    obtain rfl : k₁ = 0 := Nat.le_zero.mp hk₁
    obtain ⟨w₂, k₂, hout₂, hwire₂, hk₂, hw₂⟩ := ih hw₁.accepts
      (fun g hg => hlen g (List.mem_cons_of_mem f hg))
      (fun g hg => hfuel g (List.mem_cons_of_mem f hg))
    refine ⟨w₂, k₂, ?_, ?_, hk₂, hw₂⟩
    · rw [writeFrames, hout]
      exact hout₂
    · rw [hwire₂, hwire, List.map_cons, List.flatten_cons, List.append_assoc]

end Stream

/-! ## Reading back -/

/-- Reading as many bytes as stand at the front of a stream gives these and leaves the rest. -/
theorem readExact_append {bytes : List UInt8} {n : ℕ} (hn : bytes.length = n)
    (rest : List UInt8) : readExact (bytes ++ rest) n = .ok (bytes, rest) := by
  subst hn
  simp [readExact]

/-- A frame is read back from the front of a stream into any buffer. -/
theorem readFrameInto_frameBytes {payload : List UInt8} (hlen : payload.length ≤ maxFrameLen)
    (rest buf : List UInt8) :
    readFrameInto (Stream.frameBytes payload ++ rest) buf = .ok (rest, payload) := by
  have hhead : readExact (Stream.frameBytes payload ++ rest) 4 =
      .ok (beBytes 4 payload.length, payload ++ rest) := by
    rw [Stream.frameBytes, List.append_assoc]
    exact readExact_append (length_beBytes 4 payload.length) (payload ++ rest)
  have hnum : ofBeBytes (beBytes 4 payload.length) = payload.length := by
    rw [ofBeBytes_beBytes]
    exact Nat.mod_eq_of_lt (lt_of_le_of_lt hlen (by decide))
  -- The buffer has the length of the frame before it is filled, whatever it held.
  have hbuf : ((if buf.length < payload.length then
      buf ++ List.replicate (payload.length - buf.length) 0 else buf).take payload.length).length =
        payload.length := by
    split
    · next hshort =>
      rw [List.length_take, List.length_append, List.length_replicate]
      omega
    · rw [List.length_take]
      omega
  have hbody : readExact (payload ++ rest) payload.length = .ok (payload, rest) :=
    readExact_append rfl rest
  unfold readFrameInto
  rw [hhead]
  simp only [bind, Except.bind, hnum, if_neg (Nat.not_lt.mpr hlen), hbuf, hbody, pure, Except.pure]
  rw [List.drop_of_length_le (le_of_eq hbuf), List.append_nil]

/-- Frames are read back in order into one buffer. -/
theorem readFrames_frameBytes (payloads : List (List UInt8))
    (hlen : ∀ payload ∈ payloads, payload.length ≤ maxFrameLen) (rest buf : List UInt8) :
    readFrames payloads.length ((payloads.map Stream.frameBytes).flatten ++ rest) buf =
      .ok (payloads, rest) := by
  induction payloads generalizing buf with
  | nil => rfl
  | cons payload payloads ih =>
    rw [List.map_cons, List.flatten_cons, List.append_assoc, List.length_cons, readFrames,
      readFrameInto_frameBytes (hlen payload List.mem_cons_self)]
    have hrest := ih (fun p hp => hlen p (List.mem_cons_of_mem payload hp)) payload
    simp only [bind, Except.bind, hrest, pure, Except.pure]

/-- A length above the limit is refused whatever follows it. -/
theorem readFrameInto_refuses {len : ℕ} (hlen : maxFrameLen < len) (hfits : len < 2 ^ 32)
    (rest buf : List UInt8) :
    readFrameInto (beBytes 4 len ++ rest) buf = .error ⟨.invalidData, "frame too large"⟩ := by
  have hnum : ofBeBytes (beBytes 4 len) = len := by
    rw [ofBeBytes_beBytes]
    exact Nat.mod_eq_of_lt hfits
  unfold readFrameInto
  rw [readExact_append (length_beBytes 4 len) rest]
  simp only [bind, Except.bind, hnum, if_pos hlen]

/-! ## Main results -/

namespace Stream

/-- **Framing.** Frames within the limit, each written whole or built in place, reach a stream
that takes any parts as length and payload one after another, and are read back in order into
one buffer whatever it held and whatever follows. Both writers give the same bytes for a
payload, the loop over two buffers ends, and a frame above the limit is refused by both
writers before a call is made and by the reader. -/
theorem framing_roundtrip (frames : List FrameWrite) (w : Stream) (haccepts : w.Accepts)
    (hlen : ∀ f ∈ frames, f.payload.length ≤ maxFrameLen) :
    (∃ enough, ∀ fuel ≥ enough, ∃ w', writeFrames fuel w frames = some (.ok (), w') ∧
      w'.wire = w.wire ++
        (frames.map fun f => beBytes 4 f.payload.length ++ f.payload).flatten) ∧
    (∀ rest buf, readFrames frames.length
        ((frames.map fun f => beBytes 4 f.payload.length ++ f.payload).flatten ++ rest) buf =
      .ok (frames.map FrameWrite.payload, rest)) ∧
    (∀ (payload old : List UInt8) (w₁ w₂ : Stream), w₁.Accepts → w₂.Accepts →
      payload.length ≤ maxFrameLen → ∃ enough bytes, ∀ fuel ≥ enough, ∃ w₁' w₂',
        writeFrame fuel w₁ payload = some (.ok (), w₁') ∧ w₁'.wire = w₁.wire ++ bytes ∧
          finishFrame fuel w₂ (beginFrame old ++ payload) = some (.ok (), w₂') ∧
            w₂'.wire = w₂.wire ++ bytes) ∧
    (∀ (head body : List UInt8) (w₁ : Stream), w₁.Accepts →
      ∃ w₁', writeAllVectored w₁ head body = (.ok (), w₁') ∧
        w₁'.wire = w₁.wire ++ (head ++ body)) ∧
    (∀ (fuel : ℕ) (w₁ : Stream) (payload old : List UInt8), maxFrameLen < payload.length →
      writeFrame fuel w₁ payload = some (.error ⟨.invalidInput, "frame too large"⟩, w₁) ∧
        finishFrame fuel w₁ (beginFrame old ++ payload) =
          some (.error ⟨.invalidInput, "frame too large"⟩, w₁)) ∧
    (∀ (len : ℕ) (rest buf : List UInt8), maxFrameLen < len → len < 2 ^ 32 →
      readFrameInto (beBytes 4 len ++ rest) buf =
        .error ⟨.invalidData, "frame too large"⟩) := by
  refine ⟨⟨(frames.map fun f => 4 + f.payload.length).sum, fun fuel hfuel => ?_⟩,
    fun rest buf => ?_, fun payload old w₁ w₂ hw₁ hw₂ hpayload => ?_, fun head body w₁ hw₁ => ?_,
    fun fuel w₁ payload old hlarge =>
      ⟨writeFrame_refuses hlarge fuel w₁, finishFrame_refuses hlarge fuel w₁ old⟩,
    fun len rest buf hlarge hfits => readFrameInto_refuses hlarge hfits rest buf⟩
  · have henough : ∀ f ∈ frames, 4 + f.payload.length ≤ fuel := fun f hf =>
      le_trans (List.le_sum_of_mem (List.mem_map_of_mem (f := fun f => 4 + f.payload.length) hf))
        hfuel
    obtain ⟨w', -, hout, hwire, -⟩ := received_writeFrames haccepts frames hlen henough
    exact ⟨w', hout, hwire⟩
  · have hread := readFrames_frameBytes (frames.map FrameWrite.payload)
      (fun payload hp => by
        obtain ⟨f, hf, rfl⟩ := List.mem_map.mp hp
        exact hlen f hf) rest buf
    rw [List.length_map, List.map_map] at hread
    exact hread
  · refine ⟨4 + payload.length, frameBytes payload, fun fuel hfuel => ?_⟩
    have hfuel' : 0 + (4 + payload.length) ≤ fuel := by omega
    obtain ⟨w₁', -, hout₁, hwire₁, -⟩ := received_writeFrame (hw₁.patient IoError.isInterrupted)
      hpayload (.inr (hw₁.not_failsWithin _)) hfuel'
    obtain ⟨w₂', -, hout₂, hwire₂, -⟩ :=
      received_finishFrame (hw₂.patient IoError.isInterrupted) hpayload old hfuel'
    exact ⟨w₁', w₂', hout₁, hwire₁, hout₂, hwire₂⟩
  · rcases writeAllVectored_cases (hw₁.patient IoError.isInterrupted) head body with
      ⟨-, w₁', -, hout, hwire, -⟩ | ⟨hfails, -⟩
    · exact ⟨w₁', hout, hwire⟩
    · exact absurd hfails (hw₁.not_failsWithin _)

/-- A stream that takes one byte at a call. -/
def bytewise : Stream := ⟨fun _ => .accept 1, fun _ => .ok (), []⟩

/-- Frames of each kind, written and read byte by byte, come back as they were. -/
theorem framing_roundtrip_bytewise :
    ∃ enough, ∀ fuel ≥ enough, ∃ w',
      writeFrames fuel bytewise [.whole [7, 8], .inPlace [1] [[9], []]] = some (.ok (), w') ∧
        w'.wire = [0, 0, 0, 2, 7, 8, 0, 0, 0, 1, 9] := by
  obtain ⟨⟨enough, h⟩, -⟩ := framing_roundtrip [.whole [7, 8], .inPlace [1] [[9], []]] bytewise
    ⟨fun _ => ⟨0, rfl⟩, fun _ => rfl⟩ (by decide)
  exact ⟨enough, h⟩

/-- **Interruptions.** A stream may be interrupted finitely often. A frame within the limit is
then written to the end exactly when it is small, or when no call is interrupted before all
of it is taken: the loop over two buffers gives up where writing one buffer calls again. -/
theorem writeFrame_ok_iff (w : Stream) (interrupts : ℕ)
    (hpatient : w.Patient IoError.isInterrupted interrupts) (payload : List UInt8)
    (hlen : payload.length ≤ maxFrameLen) :
    (∃ enough, ∀ fuel ≥ enough, ∃ w', writeFrame fuel w payload = some (.ok (), w') ∧
      w'.wire = w.wire ++ (beBytes 4 payload.length ++ payload)) ↔
    (payload.length ≤ coalesceLimit ∨ ¬ w.FailsWithin (4 + payload.length)) := by
  constructor
  · rintro ⟨enough, h⟩
    by_contra hcond
    rw [not_or, not_not, Nat.not_le] at hcond
    obtain ⟨e, w', -, hout⟩ := writeFrame_interrupted hpatient hlen hcond.1 hcond.2 enough
    obtain ⟨w'', hok, -⟩ := h enough (Nat.le_refl enough)
    rw [hout] at hok
    cases hok
  · intro hcond
    refine ⟨interrupts + (4 + payload.length), fun fuel hfuel => ?_⟩
    obtain ⟨w', -, hout, hwire, -⟩ := received_writeFrame hpatient hlen hcond hfuel
    exact ⟨w', hout, hwire⟩

/-- A stream whose first call is interrupted, after which it takes everything. -/
def interruptedOnce : Stream where
  answers
    | 0 => .fail ⟨.interrupted, "interrupted"⟩
    | _ + 1 => .accept 65536
  flushes _ := .ok ()
  wire := []

/-- The writer of the example is interrupted in one call and takes everything else. -/
theorem patient_interruptedOnce :
    interruptedOnce.Patient IoError.isInterrupted 1 := by
  refine ⟨fun i => ?_, fun _ => rfl⟩
  cases i with
  | zero => exact .inr ⟨_, rfl, rfl, Nat.one_pos⟩
  | succ i => exact .inl ⟨65535, rfl⟩

/-- A frame below the coalescing limit is written in full although its first call is interrupted. -/
theorem writeFrame_ok_small :
    ∃ enough, ∀ fuel ≥ enough, ∃ w', writeFrame fuel interruptedOnce [1] = some (.ok (), w') ∧
      w'.wire = [0, 0, 0, 1, 1] :=
  (writeFrame_ok_iff interruptedOnce 1 patient_interruptedOnce [1] (by decide)).mpr
    (.inl (by decide))

/-- A large frame is not written to the writer of the example, whose only fault is one
interruption. -/
theorem writeFrame_fails_large :
    interruptedOnce.Patient IoError.isInterrupted 1 ∧
      (List.replicate 8193 (0 : UInt8)).length ≤ maxFrameLen ∧
      ∀ fuel, ∃ w', writeFrame fuel interruptedOnce (List.replicate 8193 0) =
        some (.error ⟨.interrupted, "interrupted"⟩, w') := by
  refine ⟨patient_interruptedOnce, by rw [List.length_replicate]; decide, fun fuel => ?_⟩
  have hsome : beBytes 4 (List.replicate 8193 (0 : UInt8)).length ++ List.replicate 8193 0 ≠ [] :=
    List.append_ne_nil_of_left_ne_nil (List.ne_nil_of_length_pos (by rw [length_beBytes]; decide)) _
  obtain ⟨w', hout⟩ := writeAllVectored_fail (w := interruptedOnce) rfl _ _ hsome
  refine ⟨w', ?_⟩
  rw [writeFrame, if_neg (by rw [List.length_replicate]; decide)]
  dsimp only
  rw [if_neg (by rw [List.length_replicate]; decide), hout]
  rfl

end Stream

end Skaidb

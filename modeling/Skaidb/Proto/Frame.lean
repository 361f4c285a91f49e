import Skaidb.Codec.Endian

/-!
# Framing

Each message is a single frame: a big-endian 32-bit length and that many payload
bytes. Payloads above a fixed size are refused before anything is written.
-/

namespace Skaidb

open Codec

/-- The kinds of input and output errors that the driver and the frames tell apart. -/
inductive IoErrorKind where
  | invalidInput
  | invalidData
  | unexpectedEof
  | brokenPipe
  | connectionReset
  | interrupted
  | writeZero
  | other
  deriving DecidableEq

/-- An error of input or output, by its kind and its message. -/
structure IoError where
  /-- The kind of what went wrong. -/
  kind : IoErrorKind
  /-- The text of the error. -/
  message : String
  deriving DecidableEq

/-- The largest payload of a frame that is written or accepted. -/
def maxFrameLen : ℕ := 64 * 1024 * 1024

/-- The bytes `write_frame` puts on a stream for a payload, unless it refuses it. -/
def writeFrame (payload : List UInt8) : Except IoError (List UInt8) :=
  if payload.length > maxFrameLen then .error ⟨.invalidInput, "frame too large"⟩
  else .ok (beBytes 4 payload.length ++ payload)

/-- A payload is refused exactly when it is longer than the limit. -/
theorem writeFrame_eq_error_iff (payload : List UInt8) :
    (∃ e, writeFrame payload = .error e) ↔ maxFrameLen < payload.length := by
  unfold writeFrame
  split <;> simp_all

/-- A payload is sent exactly when it is within the limit. -/
theorem writeFrame_eq_ok_iff (payload : List UInt8) :
    (∃ bytes, writeFrame payload = .ok bytes) ↔ payload.length ≤ maxFrameLen := by
  unfold writeFrame
  split <;> simp_all

end Skaidb

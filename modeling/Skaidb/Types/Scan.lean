import Skaidb.Types.Document
import Skaidb.Types.Key

/-!
# Walks over encoded documents

The readers that look at a stored row without building all of it: the projected decode,
the decode that probes fields for null, the scan of the names, the positional scan, the scan
behind a grouped read and the probe for reserved fields. Each walks the fields of a top-level
document once, decodes what is asked for and skips the other values.
-/

namespace Skaidb

open Codec

/-! ## Skipping -/

/-- What `skip_value` does after reading the tag, with `skip` for the recursive calls. -/
def skipTagged (skip : ValueReader Unit) : UInt8 → ValueReader Unit
  | Tag.null => pure ()
  | Tag.bool => do
    let _ ← readU8
    pure ()
  | Tag.int | Tag.float | Tag.timestamp => do
    let _ ← readU64
    pure ()
  | Tag.decimal => do
    let _ ← readTake 16
    let _ ← readU32
    pure ()
  | Tag.string | Tag.bytes => do
    let _ ← readBytes
    pure ()
  | Tag.uuid => do
    let _ ← readTake 16
    pure ()
  | Tag.array => do
    let n ← readU32
    let _ ← Reader.times n skip
    pure ()
  | Tag.document => do
    let n ← readU32
    let _ ← Reader.times n do
      -- The name is discarded, so it is not checked to be UTF-8.
      let _ ← readBytes
      skip
    pure ()
  | _ => Reader.fail (.unrepresentableJson "unknown value tag")

/-- `skip_value` with a bound on the recursion, used with the number of bytes left. -/
def skipFuel : ℕ → ValueReader Unit
  | 0 => Reader.fail endOfInput
  | fuel + 1 => do
    let tag ← readU8
    skipTagged (skipFuel fuel) tag

/-- `skip_value` on a whole input, with fuel for as many levels as it has bytes. -/
def skipValue : ValueReader Unit := fun input => skipFuel input.length input

/-! ## The shape of a walk -/

/-- The error of every decoder when bytes are left over after the document. -/
def trailingBytes : ValueError := .unrepresentableJson "trailing bytes after value"

/-- The number of fields of a top-level document; other values are refused. -/
def documentCount (refusal : String) : ValueReader ℕ := do
  let tag ← readU8
  if tag ≠ Tag.document then Reader.fail (.unrepresentableJson refusal)
  readU32

/-- The name of a reserved field starts with the byte `0x01`. -/
def isReserved (name : List UInt8) : Bool := name.head? == some 1

/-- A name that is kept, which must be UTF-8. -/
def nameOf (raw : List UInt8) : ValueReader String :=
  Reader.ofOption (.unrepresentableJson "invalid utf-8 in string") (fromUtf8 raw)

/-! ## Projected decode -/

/-- A hash set of names, in the order of its iteration. -/
structure NameSet where
  /-- The names in the set, in the order given. -/
  names : List String
  /-- No name occurs twice. -/
  nodup : names.Nodup

/-- Asking for this name asks for the names of all fields. -/
def fieldNamesMarker : String := "\x01names"

/-- A field of a small projection: its name is compared as raw bytes. -/
def projectRaw (wanted : NameSet) (doc : Document) : ValueReader Document := do
  let raw ← readBytes
  match wanted.names.find? fun k => utf8 k == raw with
  | some k => do
    let v ← Value.read
    pure (doc.insert k v)
  | none =>
    if isReserved raw then do
      let key ← nameOf raw
      let v ← Value.read
      pure (doc.insert key v)
    else if wanted.names.contains fieldNamesMarker then do
      let key ← nameOf raw
      skipValue
      pure (doc.insert key Value.null)
    else do
      skipValue
      pure doc

/-- A field of a large projection: its name is hashed. -/
def projectHashed (wanted : NameSet) (doc : Document) : ValueReader Document := do
  let key ← readString
  if wanted.names.contains key || isReserved (utf8 key) then do
    let v ← Value.read
    pure (doc.insert key v)
  else do
    skipValue
    pure (if wanted.names.contains fieldNamesMarker then doc.insert key Value.null else doc)

/-- A projected decode that takes each field with `field`. -/
def projectDocument (field : Document → ValueReader Document) (bytes : List UInt8) :
    Except ValueError Document :=
  Reader.whole trailingBytes (do
    let n ← documentCount "decode_document_projected: not a document"
    Reader.ensure (fun left => ¬ n > left / 5)
      (.unrepresentableJson "document field count exceeds input")
    Reader.iterate n field Document.new) bytes

/-- Decode only the fields that are wanted, and the reserved ones. -/
def decodeDocumentProjected (bytes : List UInt8) (wanted : NameSet) :
    Except ValueError Document :=
  if wanted.names.length ≤ 8 then projectDocument (projectRaw wanted) bytes
  else projectDocument (projectHashed wanted) bytes

/-! ## Probed decode -/

/-- A truth value as a value of the store. -/
def Value.bool (b : Bool) : Value := ⟨.bool b, trivial⟩

/-- A field of a probed decode: a probed value is null or anything else, told by its tag. -/
def probeField (wanted probed : NameSet) (doc : Document) : ValueReader Document := do
  let key ← readString
  if probed.names.contains key then do
    let tag ← Reader.peek
    if tag = some Tag.null then do
      let v ← Value.read
      pure (doc.insert key v)
    else do
      skipValue
      pure (doc.insert key (Value.bool true))
  else if wanted.names.contains key || isReserved (utf8 key) then do
    let v ← Value.read
    pure (doc.insert key v)
  else do
    skipValue
    pure doc

/-- Decode the fields that are wanted and the reserved ones, and probe others for null. -/
def decodeDocumentProbed (bytes : List UInt8) (wanted probed : NameSet) :
    Except ValueError Document :=
  Reader.whole trailingBytes (do
    let n ← documentCount "decode_document_probed: not a document"
    Reader.ensure (fun left => ¬ n > left / 5)
      (.unrepresentableJson "document field count exceeds input")
    Reader.iterate n (probeField wanted probed) Document.new) bytes

/-! ## Names -/

/-- Hand the names of the fields to a callback with a state, in stored order. -/
def scanFieldNames {σ : Type} (bytes : List UInt8) (f : σ → String → σ) (state : σ) :
    Except ValueError σ :=
  Reader.whole trailingBytes (do
    let n ← documentCount "scan_field_names: not a document"
    Reader.ensure (fun left => ¬ n > left / 5)
      (.unrepresentableJson "document field count exceeds input")
    Reader.iterate n (fun state => do
      let name ← readString
      skipValue
      pure (f state name)) state) bytes

/-! ## Probe for reserved fields -/

/-- Look for a reserved field among the next `n`; the search ends at the first name that sorts
behind the reserved ones. -/
def probeReserved : ℕ → ValueReader Bool
  | 0 => pure false
  | n + 1 => do
    let raw ← readBytes
    match raw.head? with
    | some b =>
      if b = 1 then pure true
      else if b > 1 then pure false
      else do
        skipValue
        probeReserved n
    | none => do
      -- An empty name sorts before the reserved ones too.
      skipValue
      probeReserved n

/-- Whether a field of an encoded document is reserved. What follows the last name that is
looked at is not read. -/
def docHasReserved (bytes : List UInt8) : Except ValueError Bool :=
  Reader.parse (do
    let n ← documentCount "doc_has_reserved: not a document"
    probeReserved n) bytes

/-! ## Positional scan -/

/-- A field of a positional scan: its value goes to the first position that asks for it. -/
def scanField (wanted : List String) (state : List (Option Value) × Bool) :
    ValueReader (List (Option Value) × Bool) := do
  let raw ← readBytes
  let reserved := state.2 || isReserved raw
  match wanted.findIdx? fun w => utf8 w == raw with
  | some i => do
    let v ← Value.read
    pure (state.1.set i (some v), reserved)
  | none => do
    skipValue
    pure (state.1, reserved)

/-- Decode the wanted fields by position and say whether a field is reserved. -/
def scanFields (bytes : List UInt8) (wanted : List String) :
    Except ValueError (List (Option Value) × Bool) :=
  Reader.whole trailingBytes (do
    let n ← documentCount "scan_fields: not a document"
    Reader.iterate n (scanField wanted) (List.replicate wanted.length none, false)) bytes

/-! ## Grouped scan -/

/-- What a grouped scan has gathered: the values by position, the byte ranges of the key
fields and whether a field is reserved. -/
structure GroupScan where
  /-- The values of the value fields. -/
  vals : List (Option Value)
  /-- Where the values of the key fields are. -/
  spans : List (Option (ℕ × ℕ))
  /-- A field is reserved. -/
  reserved : Bool

/-- Record a range at every position of the key that asks for the name. -/
def markSpans (keyFields : List String) (raw : List UInt8) (span : ℕ × ℕ)
    (spans : List (Option (ℕ × ℕ))) : List (Option (ℕ × ℕ)) :=
  List.zipWith (fun w old => if utf8 w == raw then some span else old) keyFields spans

/-- A field of a grouped scan over an input of `total` bytes. -/
def groupField (total : ℕ) (keyFields valFields : List String) (state : GroupScan) :
    ValueReader GroupScan := do
  let raw ← readBytes
  let state := { state with reserved := state.reserved || isReserved raw }
  let valHit := valFields.findIdx? fun w => utf8 w == raw
  let keyHit := keyFields.any fun w => utf8 w == raw
  if valHit.isNone && !keyHit then do
    skipValue
    pure state
  else do
    let start ← Reader.position total
    let vals ← match valHit with
      | some i => do
        let v ← Value.read
        pure (state.vals.set i (some v))
      | none => do
        skipValue
        pure state.vals
    let stop ← Reader.position total
    pure { state with
      vals := vals
      spans := if keyHit then markSpans keyFields raw (start, stop) state.spans else state.spans }

section Transcode

variable (toF64 : Decimal → UInt64)

/-- The key of a stored value by its tag; `bytes` is the whole of it, for nested values. -/
def transcodeTagged (bytes : List UInt8) : UInt8 → ValueReader (List UInt8)
  | Tag.null => pure [KeyTag.null]
  | Tag.bool => do
    let b ← readU8
    pure [KeyTag.bool, if b != 0 then 1 else 0]
  | Tag.int => do
    let word ← readU64
    pure (KeyTag.int :: encodeI64 word.toInt64)
  | Tag.float => do
    let word ← readU64
    pure (KeyTag.float :: encodeF64 word)
  | Tag.decimal => do
    let d ← readDecimal
    pure (KeyTag.decimal :: encodeF64 (toF64 d))
  | Tag.string => do
    let raw ← readBytes
    if (fromUtf8 raw).isNone then
      Reader.fail (.unrepresentableJson "invalid utf-8 in string")
    pure (KeyTag.string :: encodeBytes raw)
  | Tag.bytes => do
    let raw ← readBytes
    pure (KeyTag.bytes :: encodeBytes raw)
  | Tag.uuid => do
    let raw ← readTake 16
    pure (KeyTag.uuid :: raw)
  | Tag.timestamp => do
    let word ← readU64
    pure (KeyTag.timestamp :: encodeI64 word.toInt64)
  | Tag.array | Tag.document => fun input =>
    match readValue bytes with
    | .ok (v, _) => .ok (encodeInto toF64 v, input)
    | .error e => .error e
  | _ => Reader.fail (.unrepresentableJson "unknown value tag")

/-- The order-preserving key of a stored value, made from its bytes. -/
def transcodeKeyValue (bytes : List UInt8) : Except ValueError (List UInt8) :=
  Reader.parse (do
    let tag ← readU8
    transcodeTagged toF64 bytes tag) bytes

/-- The keys of the recorded ranges in order; an absent field has the key of null. -/
def transcodeSpans (bytes : List UInt8) : List (Option (ℕ × ℕ)) → Except ValueError (List UInt8)
  | [] => .ok []
  | none :: spans => do
    let keys ← transcodeSpans bytes spans
    pure (KeyTag.null :: keys)
  | some (start, stop) :: spans => do
    let key ← transcodeKeyValue toF64 ((bytes.drop start).take (stop - start))
    let keys ← transcodeSpans bytes spans
    pure (key ++ keys)

/-- Append the key of the key fields, decode the value fields by position and say whether
a field is reserved. -/
def scanGroupRow (bytes : List UInt8) (keyFields valFields : List String)
    (keyOut : List UInt8) : Except ValueError (List UInt8 × List (Option Value) × Bool) := do
  let state ← Reader.whole trailingBytes (do
    let n ← documentCount "scan_group_row: not a document"
    Reader.iterate n (groupField bytes.length keyFields valFields)
      ⟨List.replicate valFields.length none, List.replicate keyFields.length none, false⟩) bytes
  if keyFields.isEmpty then pure (keyOut, state.vals, state.reserved)
  else do
    let keys ← transcodeSpans toF64 bytes state.spans
    pure (keyOut ++ KeyTag.array :: (keys ++ [KeyTag.end]), state.vals, state.reserved)

/-- The order-preserving key of an array of the given components. -/
def encodeArrayKeyInto (items : List Value) : List UInt8 :=
  KeyTag.array :: (items.flatMap (·.encodeKey toF64) ++ [KeyTag.end])

end Transcode

end Skaidb

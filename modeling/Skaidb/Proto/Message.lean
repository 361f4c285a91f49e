import Skaidb.Types.CodecCorrect

/-!
# Protocol messages

Requests and responses of the binary protocol and their encoding. Encoders append
to a buffer `out`; a value is encoded in place behind a length that is filled in
afterwards. Decoders read from the front of a buffer and do not look at what is
left, so a message is delimited by its frame only.
-/

namespace Skaidb

open Codec

/-- `Consistency`: how many replicas have to answer an operation. -/
inductive Consistency where
  | one
  | quorum
  | all
  deriving DecidableEq

/-- `Consistency::to_u8`: the byte that a consistency level is sent as. -/
def Consistency.toU8 : Consistency → UInt8
  | .one => 0
  | .quorum => 1
  | .all => 2

/-- `Consistency::from_u8`: the consistency level that a byte stands for, if it does. -/
def Consistency.fromU8 : UInt8 → Option Consistency
  | 0 => some .one
  | 1 => some .quorum
  | 2 => some .all
  | _ => none

/-- `Request`: a statement with its consistency level, the oldest form of a request. -/
structure Request where
  /-- The text of the statement. -/
  sql : String
  /-- The consistency asked for. -/
  consistency : Consistency
  deriving DecidableEq

/-- `ClientRequest`: what a client asks for, from statements and handles to streams and the
hello. -/
inductive ClientRequest where
  | query (sql : String) (consistency : Consistency)
  | prepare (sql : String)
  | execute (id : UInt32) (params : List Value) (consistency : Consistency)
  | close (id : UInt32)
  | queryStream (sql : String) (params : List Value) (consistency : Consistency)
  | executeBatch (id : UInt32) (rows : List (List Value)) (consistency : Consistency)
  | hello (clientName clientVersion : String)

/-- What a server may respond to a request. -/
inductive Response where
  | rows (columns : List String) (rows : List (List Value))
  | mutation (affected : UInt64)
  | ddl
  | error (msg : String)
  | prepared (id : UInt32) (params : UInt16)
  | rowsHeader (columns : List String)
  | rowsChunk (rows : List (List Value))
  | rowsEnd
  | resultSets (sets : List (List String × List (List Value)))

/-- `ProtoError`: why a message of the protocol could not be decoded. -/
inductive ProtoError where
  | malformed (message : String)
  deriving DecidableEq

namespace Op

/-- Opcode of `ClientRequest.query`. -/
@[match_pattern] abbrev query : UInt8 := 1
/-- Opcode of `ClientRequest.prepare`. -/
@[match_pattern] abbrev prepare : UInt8 := 2
/-- Opcode of `ClientRequest.execute`. -/
@[match_pattern] abbrev execute : UInt8 := 3
/-- Opcode of `ClientRequest.close`. -/
@[match_pattern] abbrev close : UInt8 := 4
/-- Opcode of `ClientRequest.queryStream` without parameters. -/
@[match_pattern] abbrev queryStream : UInt8 := 5
/-- Wrapper opcode for pipelining. -/
@[match_pattern] abbrev tagged : UInt8 := 6
/-- Opcode of `ClientRequest.executeBatch`. -/
@[match_pattern] abbrev executeBatch : UInt8 := 7
/-- Opcode of `ClientRequest.hello`. -/
@[match_pattern] abbrev hello : UInt8 := 8
/-- Opcode of `ClientRequest.queryStream` with parameters. -/
@[match_pattern] abbrev queryStreamParams : UInt8 := 9

end Op

namespace Resp

/-- Tag of `Response.rows`. -/
@[match_pattern] abbrev rows : UInt8 := 0
/-- Tag of `Response.mutation`. -/
@[match_pattern] abbrev mutation : UInt8 := 1
/-- Tag of `Response.ddl`. -/
@[match_pattern] abbrev ddl : UInt8 := 2
/-- Tag of `Response.error`. -/
@[match_pattern] abbrev error : UInt8 := 3
/-- Tag of `Response.prepared`. -/
@[match_pattern] abbrev prepared : UInt8 := 4
/-- Tag of `Response.rowsHeader`. -/
@[match_pattern] abbrev rowsHeader : UInt8 := 5
/-- Tag of `Response.rowsChunk`. -/
@[match_pattern] abbrev rowsChunk : UInt8 := 6
/-- Tag of `Response.rowsEnd`. -/
@[match_pattern] abbrev rowsEnd : UInt8 := 7
/-- Tag of `Response.resultSets`. -/
@[match_pattern] abbrev resultSets : UInt8 := 8
/-- Wrapper tag for responses to tagged requests, which is also the tag of result sets. -/
@[match_pattern] abbrev tagged : UInt8 := 8

end Resp

/-! ## Encoding -/

/-- Overwrite the bytes of a buffer from a position on. -/
def patch (out : List UInt8) (pos : ℕ) (bytes : List UInt8) : List UInt8 :=
  out.take pos ++ bytes ++ out.drop (pos + bytes.length)

/-- Append a value behind its length, which is filled in afterwards. -/
def encodeCell (out : List UInt8) (v : Value) : List UInt8 :=
  let lenPos := out.length
  let out := out ++ [0, 0, 0, 0]
  let out := out ++ v.encode
  let len := out.length - lenPos - 4
  patch out lenPos (leBytes 4 len)

/-- Append a parameter list behind its 16-bit count. -/
def encodeParams (out : List UInt8) (params : List Value) : List UInt8 :=
  params.foldl encodeCell (out ++ leBytes 2 params.length)

/-- `Request::encode`: the bytes of a request in its oldest form. -/
def Request.encode (r : Request) : List UInt8 :=
  [Op.query, r.consistency.toU8] ++ writeBytes (utf8 r.sql)

/-- `ClientRequest::encode_into`: the bytes of a request behind what the buffer holds. -/
def ClientRequest.encodeInto (out : List UInt8) : ClientRequest → List UInt8
  | .query sql consistency => out ++ [Op.query, consistency.toU8] ++ writeBytes (utf8 sql)
  | .prepare sql => out ++ [Op.prepare] ++ writeBytes (utf8 sql)
  | .execute id params consistency =>
    encodeParams (out ++ [Op.execute, consistency.toU8] ++ leBytes 4 id.toNat) params
  | .close id => out ++ [Op.close] ++ leBytes 4 id.toNat
  | .queryStream sql params consistency =>
    let out := out ++ [if params.isEmpty then Op.queryStream else Op.queryStreamParams,
      consistency.toU8] ++ writeBytes (utf8 sql)
    if params.isEmpty then out else encodeParams out params
  | .hello clientName clientVersion =>
    out ++ [Op.hello] ++ writeBytes (utf8 clientName) ++ writeBytes (utf8 clientVersion)
  | .executeBatch id rows consistency =>
    rows.foldl encodeParams
      (out ++ [Op.executeBatch, consistency.toU8] ++ leBytes 4 id.toNat ++ leBytes 4 rows.length)

/-- Encode a request into a message of its own. -/
def ClientRequest.encode (r : ClientRequest) : List UInt8 := r.encodeInto []

/-- `encode_tagged_request`: a request behind the pipelining wrapper with its identifier. -/
def encodeTaggedRequest (id : UInt32) (req : ClientRequest) (out : List UInt8) : List UInt8 :=
  req.encodeInto (out ++ [Op.tagged] ++ leBytes 4 id.toNat)

/-- `encode_columns`: column names behind their count, appended to a buffer. -/
def encodeColumns (out : List UInt8) (columns : List String) : List UInt8 :=
  columns.foldl (fun out col => out ++ writeBytes (utf8 col)) (out ++ leBytes 4 columns.length)

/-- Append the cells of a row behind their count. -/
def encodeRowInto (out : List UInt8) (row : List Value) : List UInt8 :=
  row.foldl encodeCell (out ++ leBytes 4 row.length)

/-- Append rows behind their count, as responses and batches carry them. -/
def encodeRows (out : List UInt8) (rows : List (List Value)) : List UInt8 :=
  rows.foldl encodeRowInto (out ++ leBytes 4 rows.length)

/-- `Response::encode_into`: the bytes of a response behind what the buffer holds. -/
def Response.encodeInto (out : List UInt8) : Response → List UInt8
  | .rows columns rs => encodeRows (encodeColumns (out ++ [Resp.rows]) columns) rs
  | .mutation affected => out ++ [Resp.mutation] ++ leBytes 8 affected.toNat
  | .ddl => out ++ [Resp.ddl]
  | .error msg => out ++ [Resp.error] ++ writeBytes (utf8 msg)
  | .prepared id params =>
    out ++ [Resp.prepared] ++ leBytes 4 id.toNat ++ leBytes 2 params.toNat
  | .rowsHeader columns => encodeColumns (out ++ [Resp.rowsHeader]) columns
  | .rowsChunk rs => encodeRows (out ++ [Resp.rowsChunk]) rs
  | .rowsEnd => out ++ [Resp.rowsEnd]
  | .resultSets sets =>
    sets.foldl (fun out set => encodeRows (encodeColumns out set.1) set.2)
      (out ++ [Resp.resultSets] ++ leBytes 4 sets.length)

/-- Encode a response into a message of its own. -/
def Response.encode (r : Response) : List UInt8 := r.encodeInto []

/-- Begin a tagged response; the ordinary encoding follows in the same buffer. -/
def tagResponse (out : List UInt8) (id : UInt32) : List UInt8 :=
  out ++ [Resp.tagged] ++ leBytes 4 id.toNat

/-! ## Decoding -/

/-- A position in a message, reading from it. -/
abbrev Cursor := Reader UInt8 ProtoError

namespace Cursor

/-- `Cursor::take`: a fixed number of bytes of a message, or the error for a short one. -/
def take (n : ℕ) : Cursor (List UInt8) := Reader.take (.malformed "unexpected end") n

/-- `Cursor::u8`: one byte of a message, or the error for a short one. -/
def u8 : Cursor UInt8 := Reader.symbol (.malformed "unexpected end")

/-- A 16-bit number of a message, little-endian, as counts of parameters are. -/
def u16 : Cursor UInt16 := do
  let bytes ← take 2
  pure (UInt16.ofNat (ofLeBytes bytes))

/-- `Cursor::u32`: a 32-bit number of a message, little-endian, as lengths and counts are. -/
def u32 : Cursor UInt32 := do
  let bytes ← take 4
  pure (UInt32.ofNat (ofLeBytes bytes))

/-- `Cursor::u64`: a 64-bit number of a message, little-endian. -/
def u64 : Cursor UInt64 := do
  let bytes ← take 8
  pure (UInt64.ofNat (ofLeBytes bytes))

/-- Read a byte string behind its length, which must not exceed what is left of the message. -/
def bytes : Cursor (List UInt8) := do
  let len ← u32
  take len.toNat

/-- Read a string behind its length, which has to be UTF-8. -/
def string : Cursor String := do
  let bytes ← bytes
  Reader.ofOption (.malformed "invalid utf-8") (fromUtf8 bytes)

/-- Read a consistency level from the byte that names it. -/
def consistency : Cursor Consistency := do
  let b ← u8
  Reader.ofOption (.malformed "bad consistency") (Consistency.fromU8 b)

/-- Read a length-prefixed value, all of whose bytes must belong to it. -/
def cell : Cursor Value := do
  let bytes ← bytes
  Reader.ofOption (.malformed "bad value encoding") (Value.decode bytes).toOption

/-- Read a parameter list behind its 16-bit count. -/
def params : Cursor (List Value) := do
  let nparams ← u16
  Reader.times nparams.toNat cell

end Cursor

/-- What `Request::decode` reads from the front of a message. -/
def Request.read : Cursor Request := do
  let op ← Cursor.u8
  if op ≠ Op.query then Reader.fail (.malformed "unknown opcode")
  else do
    let consistency ← Cursor.consistency
    let sql ← Cursor.string
    pure ⟨sql, consistency⟩

/-- `Request::decode`: a request in its oldest form, or why the bytes are none. -/
def Request.decode (buf : List UInt8) : Except ProtoError Request := Request.read.parse buf

/-- What `ClientRequest::decode` reads after the opcode, one case for each of them. -/
def ClientRequest.readBody : UInt8 → Cursor ClientRequest
  | Op.query => do
    let consistency ← Cursor.consistency
    let sql ← Cursor.string
    pure (.query sql consistency)
  | Op.prepare => do
    let sql ← Cursor.string
    pure (.prepare sql)
  | Op.execute => do
    let consistency ← Cursor.consistency
    let id ← Cursor.u32
    let params ← Cursor.params
    pure (.execute id params consistency)
  | Op.close => do
    let id ← Cursor.u32
    pure (.close id)
  | Op.hello => do
    let clientName ← Cursor.string
    let clientVersion ← Cursor.string
    pure (.hello clientName clientVersion)
  | Op.executeBatch => do
    let consistency ← Cursor.consistency
    let id ← Cursor.u32
    let nrows ← Cursor.u32
    let rows ← Reader.times nrows.toNat Cursor.params
    pure (.executeBatch id rows consistency)
  | Op.queryStream => do
    let consistency ← Cursor.consistency
    let sql ← Cursor.string
    pure (.queryStream sql [] consistency)
  | Op.queryStreamParams => do
    let consistency ← Cursor.consistency
    let sql ← Cursor.string
    let params ← Cursor.params
    pure (.queryStream sql params consistency)
  | _ => Reader.fail (.malformed "unknown opcode")

/-- What `ClientRequest::decode` reads from the front of a message. -/
def ClientRequest.read : Cursor ClientRequest := do
  let op ← Cursor.u8
  ClientRequest.readBody op

/-- `ClientRequest::decode`: the request that the bytes begin with; what follows it is ignored. -/
def ClientRequest.decode (buf : List UInt8) : Except ProtoError ClientRequest :=
  ClientRequest.read.parse buf

/-- Decode a request that may carry the pipelining wrapper. -/
def decodeClientRequest (buf : List UInt8) : Except ProtoError (Option UInt32 × ClientRequest) :=
  if buf.head? = some Op.tagged then
    if buf.length < 6 then .error (.malformed "unexpected end")
    else if buf[5]? = some Op.tagged then .error (.malformed "nested tagged request")
    else do
      let id := UInt32.ofNat (ofLeBytes ((buf.drop 1).take 4))
      let req ← ClientRequest.decode (buf.drop 5)
      pure (some id, req)
  else do
    let req ← ClientRequest.decode buf
    pure (none, req)

/-- `decode_columns`: as many column names as the count in front of them says. -/
def decodeColumns : Cursor (List String) := do
  let ncols ← Cursor.u32
  Reader.times ncols.toNat Cursor.string

/-- Read the cells of a row behind their count. -/
def decodeRow : Cursor (List Value) := do
  let cells ← Cursor.u32
  Reader.times cells.toNat Cursor.cell

/-- Read rows behind their count, each with the count of its own cells. -/
def decodeRows : Cursor (List (List Value)) := do
  let nrows ← Cursor.u32
  Reader.times nrows.toNat decodeRow

/-- Read the columns and the rows of a result set. -/
def decodeSet : Cursor (List String × List (List Value)) := do
  let columns ← decodeColumns
  let rows ← decodeRows
  pure (columns, rows)

/-- As many result sets as the count in front of them says. -/
def decodeSets : Cursor (List (List String × List (List Value))) := do
  let n ← Cursor.u32
  Reader.times n.toNat decodeSet

/-- What `Response::decode` reads after the tag, one case for each of them. -/
def Response.readBody : UInt8 → Cursor Response
  | Resp.rows => do
    let columns ← decodeColumns
    let rs ← decodeRows
    pure (.rows columns rs)
  | Resp.mutation => do
    let affected ← Cursor.u64
    pure (.mutation affected)
  | Resp.ddl => pure .ddl
  | Resp.error => do
    let msg ← Cursor.string
    pure (.error msg)
  | Resp.prepared => do
    let id ← Cursor.u32
    let params ← Cursor.u16
    pure (.prepared id params)
  | Resp.rowsHeader => do
    let columns ← decodeColumns
    pure (.rowsHeader columns)
  | Resp.rowsChunk => do
    let rs ← decodeRows
    pure (.rowsChunk rs)
  | Resp.rowsEnd => pure .rowsEnd
  | Resp.resultSets => do
    let sets ← decodeSets
    pure (.resultSets sets)
  | _ => Reader.fail (.malformed "unknown response tag")

/-- What `Response::decode` reads from the front of a message. -/
def Response.read : Cursor Response := do
  let tag ← Cursor.u8
  Response.readBody tag

/-- `Response::decode`: the response that the bytes begin with; what follows it is ignored. -/
def Response.decode (buf : List UInt8) : Except ProtoError Response := Response.read.parse buf

/-- Decode a response that may carry the pipelining wrapper. -/
def decodeTaggedResponse (buf : List UInt8) : Except ProtoError (Option UInt32 × Response) :=
  if buf.head? = some Resp.tagged then
    if buf.length < 6 then .error (.malformed "unexpected end")
    else do
      let id := UInt32.ofNat (ofLeBytes ((buf.drop 1).take 4))
      let resp ← Response.decode (buf.drop 5)
      pure (some id, resp)
  else do
    let resp ← Response.decode buf
    pure (none, resp)

end Skaidb

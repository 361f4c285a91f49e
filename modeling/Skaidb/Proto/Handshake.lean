import Skaidb.Codec.Text
import Skaidb.Proto.Fields
import Skaidb.Proto.Frame

/-!
# The handshake

The first message of the client names the user, a nonce and the mechanism; the server
answers with a salt, an iteration count and its nonce. Both sides sign the same text, which
joins these five with a separator.
-/

namespace Skaidb

open Codec Reader

/-- The byte that an encoded `AuthStart` begins with. -/
def tStart : UInt8 := 10

/-- The byte that an encoded `AuthChallenge` begins with. -/
def tChallenge : UInt8 := 11

/-- The mechanisms by which a client can authenticate. -/
inductive AuthMechanism where
  | scramSha256
  | gssapi
  | external
  deriving DecidableEq

/-- The byte by which a message names a mechanism. -/
def AuthMechanism.toByte : AuthMechanism → UInt8
  | .scramSha256 => 0
  | .gssapi => 1
  | .external => 2

/-- The mechanism that a byte names, if it names one. -/
def AuthMechanism.fromByte : UInt8 → Option AuthMechanism
  | 0 => some .scramSha256
  | 1 => some .gssapi
  | 2 => some .external
  | _ => none

/-- `AuthStart`: the first message of the client, with the mechanism it asks for. -/
structure AuthStart where
  /-- The name of the user who is connecting. -/
  username : String
  /-- The nonce of the client. -/
  clientNonce : String
  /-- How the client wishes to authenticate. -/
  mechanism : AuthMechanism
  deriving DecidableEq

/-- The first answer of the server: its nonce, and how the password is to be salted. -/
structure AuthChallenge where
  /-- The salt of the user. -/
  salt : List UInt8
  /-- How often the client has to iterate the hash. -/
  iterations : UInt32
  /-- The nonce of the server. -/
  serverNonce : String
  deriving DecidableEq

/-- The text that both sides sign, with a separator between its fields. -/
def authMessageText (username clientNonce serverNonce : String) (salt : List UInt8)
    (iterations : UInt32) : String :=
  let saltHex := String.ofList (hexText salt)
  let decimal := String.ofList (Nat.toDigits 10 iterations.toNat)
  username ++ "\x00" ++ clientNonce ++ "\x00" ++ serverNonce ++ "\x00" ++ saltHex ++ "\x00" ++
    decimal

/-- `auth_message`: the text that both sides of a login sign, its fields separated by NUL bytes. -/
def authMessage (username clientNonce serverNonce : String) (salt : List UInt8)
    (iterations : UInt32) : List UInt8 :=
  utf8 (authMessageText username clientNonce serverNonce salt iterations)

/-! ## The two messages -/

/-- Encode the first message; the mechanism comes last. -/
def AuthStart.encode (m : AuthStart) : List UInt8 :=
  [tStart] ++ writeBytes (utf8 m.username) ++ writeBytes (utf8 m.clientNonce) ++
    [m.mechanism.toByte]

/-- Encode the challenge: its tag, the salt, the iterations and the nonce. -/
def AuthChallenge.encode (m : AuthChallenge) : List UInt8 :=
  [tChallenge] ++ writeBytes m.salt ++ leBytes 4 m.iterations.toNat ++
    writeBytes (utf8 m.serverNonce)

namespace HandshakeReader

/-- `Reader::take` of the handshake: a fixed number of bytes, or the error for a short message. -/
def take (n : ℕ) : Cursor (List UInt8) := Reader.take (.malformed "short handshake message") n

/-- `Reader::u8` of the handshake: one byte, or the error for a short message. -/
def u8 : Cursor UInt8 := Reader.symbol (.malformed "short handshake message")

/-- Read a 32-bit number of a handshake message. -/
def u32 : Cursor UInt32 := do
  let bytes ← take 4
  pure (UInt32.ofNat (ofLeBytes bytes))

/-- Read a byte string behind its length, which must not exceed what is left of the message. -/
def bytes : Cursor (List UInt8) := do
  let n ← u32
  take n.toNat

/-- Read a string behind its length, which has to be UTF-8. -/
def string : Cursor String := do
  let bytes ← bytes
  Reader.ofOption (.malformed "bad utf-8") (fromUtf8 bytes)

/-- The number of bytes that are left of the message. -/
def remaining : Cursor ℕ := fun input => .ok (input.length, input)

/-- `Reader::new` of the handshake: the tag of the expected message, or the error for another
one. -/
def new (expectTag : UInt8) : Cursor Unit := do
  let tag ← u8
  if tag ≠ expectTag then Reader.fail (.malformed "unexpected handshake tag") else pure ()

/-- Read the mechanism; a client that leaves it out means SCRAM. -/
def mechanism : Cursor AuthMechanism := do
  let n ← remaining
  if n > 0 then do
    let b ← u8
    Reader.ofOption (.malformed "unknown auth mechanism") (AuthMechanism.fromByte b)
  else pure .scramSha256

end HandshakeReader

/-- What `AuthStart::decode` reads from the front of a message. -/
def AuthStart.read : Cursor AuthStart := do
  HandshakeReader.new tStart
  let username ← HandshakeReader.string
  let clientNonce ← HandshakeReader.string
  let mechanism ← HandshakeReader.mechanism
  pure ⟨username, clientNonce, mechanism⟩

/-- Decode the first message of a client; what stands behind it is ignored. -/
def AuthStart.decode (buf : List UInt8) : Except ProtoError AuthStart := AuthStart.read.parse buf

/-- What `AuthChallenge::decode` reads from the front of a message. -/
def AuthChallenge.read : Cursor AuthChallenge := do
  HandshakeReader.new tChallenge
  let salt ← HandshakeReader.bytes
  let iterations ← HandshakeReader.u32
  let serverNonce ← HandshakeReader.string
  pure ⟨salt, iterations, serverNonce⟩

/-- Decode the challenge from the front of a message; what stands behind it is ignored. -/
def AuthChallenge.decode (buf : List UInt8) : Except ProtoError AuthChallenge :=
  AuthChallenge.read.parse buf

/-! ## Reading the messages back -/

namespace HandshakeReader

/-- A 32-bit number of a handshake message is read back from its four bytes. -/
theorem u32_reads (n : UInt32) : Reads u32 (leBytes 4 n.toNat) n := reads_u32 _ n

/-- A byte string of a handshake message is read back, provided its length fits 32 bits. -/
theorem bytes_reads {b : List UInt8} (hlen : b.length < 2 ^ 32) :
    Reads bytes (writeBytes b) b := reads_bytes _ hlen

/-- A string is read back from its bytes behind their length, if the length fits its field. -/
theorem string_reads {s : String} (hlen : (utf8 s).length < 2 ^ 32) :
    Reads string (writeBytes (utf8 s)) s := reads_string _ _ hlen

/-- The tag that is expected is read from a message that begins with it. -/
theorem new_reads (tag : UInt8) : Reads (new tag) [tag] () := by
  intro rest
  simp [new, u8, Reader.symbol, bind_apply]

/-- A mechanism is read back from the byte that names it. -/
theorem mechanism_reads (m : AuthMechanism) : Reads mechanism [m.toByte] m := by
  cases m <;> exact fun _ => rfl

end HandshakeReader

/-- The reader of the first message reads it when its strings fit their length fields. -/
theorem AuthStart.reads {m : AuthStart} (hname : (utf8 m.username).length < 2 ^ 32)
    (hnonce : (utf8 m.clientNonce).length < 2 ^ 32) : Reads AuthStart.read m.encode m := by
  rw [AuthStart.encode, List.append_assoc, List.append_assoc]
  refine (HandshakeReader.new_reads tStart).bind ?_
  refine (HandshakeReader.string_reads hname).bind ?_
  refine (HandshakeReader.string_reads hnonce).bind ?_
  exact (HandshakeReader.mechanism_reads m.mechanism).map
    fun mechanism => (⟨m.username, m.clientNonce, mechanism⟩ : AuthStart)

/-- The first message is read back when its strings fit their length fields. -/
theorem AuthStart.decode_encode {m : AuthStart} (hname : (utf8 m.username).length < 2 ^ 32)
    (hnonce : (utf8 m.clientNonce).length < 2 ^ 32) : AuthStart.decode m.encode = .ok m := by
  have hparse := (AuthStart.reads hname hnonce).parse []
  rwa [List.append_nil] at hparse

/-- The reader of the challenge reads it when its fields fit their length fields. -/
theorem AuthChallenge.reads {m : AuthChallenge} (hsalt : m.salt.length < 2 ^ 32)
    (hnonce : (utf8 m.serverNonce).length < 2 ^ 32) : Reads AuthChallenge.read m.encode m := by
  rw [AuthChallenge.encode, List.append_assoc, List.append_assoc]
  refine (HandshakeReader.new_reads tChallenge).bind ?_
  refine (HandshakeReader.bytes_reads hsalt).bind ?_
  refine (HandshakeReader.u32_reads m.iterations).bind ?_
  exact (HandshakeReader.string_reads hnonce).map
    fun serverNonce => (⟨m.salt, m.iterations, serverNonce⟩ : AuthChallenge)

/-- The challenge is read back when its fields fit their length fields. -/
theorem AuthChallenge.decode_encode {m : AuthChallenge} (hsalt : m.salt.length < 2 ^ 32)
    (hnonce : (utf8 m.serverNonce).length < 2 ^ 32) : AuthChallenge.decode m.encode = .ok m := by
  have hparse := (AuthChallenge.reads hsalt hnonce).parse []
  rwa [List.append_nil] at hparse

/-! ## What the signed text determines -/

/-- What the two messages of a handshake carry. -/
structure Transcript where
  /-- The name of the user who is connecting. -/
  username : String
  /-- The nonce of the client. -/
  clientNonce : String
  /-- The nonce of the server. -/
  serverNonce : String
  /-- The salt of the user. -/
  salt : List UInt8
  /-- How often the client has to iterate the hash. -/
  iterations : UInt32
  deriving DecidableEq

namespace Transcript

variable {t t' : Transcript}

/-- The first message of the handshake that a transcript is of. -/
def start (t : Transcript) : AuthStart := ⟨t.username, t.clientNonce, .scramSha256⟩

/-- The challenge that the server sent in the handshake of a transcript. -/
def challenge (t : Transcript) : AuthChallenge := ⟨t.salt, t.iterations, t.serverNonce⟩

/-- The text that both sides sign in the handshake that a transcript is of. -/
def message (t : Transcript) : List UInt8 :=
  authMessage t.username t.clientNonce t.serverNonce t.salt t.iterations

/-- The two messages are read as they were written. -/
def Carried (t : Transcript) : Prop :=
  AuthStart.decode t.start.encode = .ok t.start ∧
    AuthChallenge.decode t.challenge.encode = .ok t.challenge

/-- The two messages of the transcript fit into frames, as they did when they were sent. -/
def Framed (t : Transcript) : Prop :=
  t.start.encode.length ≤ maxFrameLen ∧ t.challenge.encode.length ≤ maxFrameLen

/-- The name and the nonces do not contain the separator. -/
def NulFree (t : Transcript) : Prop :=
  '\x00' ∉ t.username.toList ∧ '\x00' ∉ t.clientNonce.toList ∧ '\x00' ∉ t.serverNonce.toList

/-- The fields of the signed text, in the order in which they are joined. -/
def fields (t : Transcript) : List (List Char) :=
  [t.username.toList, t.clientNonce.toList, t.serverNonce.toList, hexText t.salt,
    Nat.toDigits 10 t.iterations.toNat]

/-- The signed text is its fields joined by NUL characters. -/
theorem toList_authMessageText (t : Transcript) :
    (authMessageText t.username t.clientNonce t.serverNonce t.salt t.iterations).toList =
      ['\x00'].intercalate t.fields := by
  simp [authMessageText, fields, List.intercalate_cons_cons]

/-- The same text is signed exactly when the joined fields are the same. -/
theorem message_eq_iff :
    t'.message = t.message ↔ ['\x00'].intercalate t'.fields = ['\x00'].intercalate t.fields := by
  rw [← toList_authMessageText, ← toList_authMessageText, String.toList_inj]
  exact ⟨utf8_injective, congrArg utf8⟩

/-- A text of hexadecimal digits does not have the separator in it. -/
theorem nul_notMem_of_isHexDigit {text : List Char} (h : ∀ c ∈ text, IsHexDigit c) :
    '\x00' ∉ text := fun hnul => absurd (h _ hnul) (by decide)

/-- No field contains the separator when the name and the nonces do not. -/
theorem NulFree.notMem (h : t.NulFree) : ∀ f ∈ t.fields, '\x00' ∉ f := by
  intro f hf
  simp only [fields, List.mem_cons, List.not_mem_nil, or_false] at hf
  rcases hf with rfl | rfl | rfl | rfl | rfl
  · exact h.1
  · exact h.2.1
  · exact h.2.2
  · exact nul_notMem_of_isHexDigit fun c => isHexDigit_of_mem_hexText
  · exact nul_notMem_of_isHexDigit fun c => isHexDigit_of_mem_toDigits

/-- A transcript is told by its fields, so that signing the fields signs the handshake. -/
theorem eq_of_fields_eq (h : t'.fields = t.fields) : t' = t := by
  obtain ⟨username, clientNonce, serverNonce, salt, iterations⟩ := t
  obtain ⟨username', clientNonce', serverNonce', salt', iterations'⟩ := t'
  simp only [fields, List.cons.injEq, String.toList_inj, and_true] at h
  obtain ⟨rfl, rfl, rfl, hsalt, hiterations⟩ := h
  obtain rfl := hexText_injective hsalt
  obtain rfl := UInt32.toNat_inj.mp (toDigits_injective hiterations)
  rfl

/-- Without the separator in the name and the nonces, the signed text pins the handshake. -/
theorem NulFree.eq_of_message_eq (h : t.NulFree) (hmessage : t'.message = t.message) : t' = t :=
  eq_of_fields_eq (intercalate_injective (List.cons_ne_nil _ _) h.notMem rfl
    (message_eq_iff.mp hmessage))

/-- With the separator in the name or a nonce, moving a boundary to it gives another
handshake that signs the same text. -/
theorem exists_message_eq_of_not_nulFree (h : ¬ t.NulFree) :
    ∃ t' ≠ t, t'.message = t.message ∧ t'.salt = t.salt ∧ t'.iterations = t.iterations := by
  obtain ⟨username, clientNonce, serverNonce, salt, iterations⟩ := t
  by_cases hname : '\x00' ∈ username.toList
  · obtain ⟨a, b, hab⟩ := List.append_of_mem hname
    refine ⟨⟨String.ofList a, String.ofList (b ++ '\x00' :: clientNonce.toList), serverNonce, salt,
      iterations⟩, fun heq => ?_, message_eq_iff.mpr ?_, rfl, rfl⟩
    · have hlength := congrArg (fun t => t.username.toList.length) heq
      simp [hab] at hlength
    · simp [fields, hab, List.intercalate_cons_cons]
  by_cases hclient : '\x00' ∈ clientNonce.toList
  · obtain ⟨a, b, hab⟩ := List.append_of_mem hclient
    refine ⟨⟨String.ofList (username.toList ++ '\x00' :: a), String.ofList b, serverNonce, salt,
      iterations⟩, fun heq => ?_, message_eq_iff.mpr ?_, rfl, rfl⟩
    · have hlength := congrArg (fun t => t.clientNonce.toList.length) heq
      simp [hab] at hlength
      omega
    · simp [fields, hab, List.intercalate_cons_cons]
  have hserver : '\x00' ∈ serverNonce.toList := by
    by_contra hserver
    exact h ⟨hname, hclient, hserver⟩
  obtain ⟨a, b, hab⟩ := List.append_of_mem hserver
  refine ⟨⟨username, String.ofList (clientNonce.toList ++ '\x00' :: a), String.ofList b, salt,
    iterations⟩, fun heq => ?_, message_eq_iff.mpr ?_, rfl, rfl⟩
  · have hlength := congrArg (fun t => t.serverNonce.toList.length) heq
    simp [hab] at hlength
    omega
  · simp [fields, hab, List.intercalate_cons_cons]

/-- The bytes of the name and the nonces. -/
def size (t : Transcript) : ℕ :=
  (utf8 t.username).length + (utf8 t.clientNonce).length + (utf8 t.serverNonce).length

/-- The signed text is the name and the nonces and, for one salt and iteration count, as many
more bytes. -/
theorem length_message (t : Transcript) :
    t.message.length = t.size + (4 + (utf8 (String.ofList (hexText t.salt))).length +
      (utf8 (String.ofList (Nat.toDigits 10 t.iterations.toNat))).length) := by
  have hnul : (utf8 "\x00").length = 1 := by decide
  simp only [message, authMessage, authMessageText, size, utf8_append, List.length_append, hnul]
  omega

/-- Messages that fit into frames hold few bytes, so no length field of the handshake overflows. -/
theorem Framed.size_lt (h : t.Framed) : t.size + t.salt.length < 2 ^ 32 := by
  obtain ⟨hstart, hchallenge⟩ := h
  simp only [start, challenge, AuthStart.encode, AuthChallenge.encode, writeBytes,
    List.length_append, maxFrameLen] at hstart hchallenge
  unfold size
  omega

/-- Messages with few bytes are read as they were written. -/
theorem carried_of_size_lt (h : t.size + t.salt.length < 2 ^ 32) : t.Carried := by
  unfold size at h
  refine ⟨AuthStart.decode_encode ?_ ?_, AuthChallenge.decode_encode ?_ ?_⟩
  · change (utf8 t.username).length < 2 ^ 32
    omega
  · change (utf8 t.clientNonce).length < 2 ^ 32
    omega
  · change t.salt.length < 2 ^ 32
    omega
  · change (utf8 t.serverNonce).length < 2 ^ 32
    omega

/-- **What the signed text pins.** A handshake is the only one that signs its text exactly
when its name and nonces do not contain the separator; among handshakes that the messages
carry, too. -/
theorem message_pins_iff (t : Transcript) :
    ((∀ t' : Transcript, t'.message = t.message → t' = t) ↔ t.NulFree) ∧
    (t.Framed →
      ((∀ t' : Transcript, t'.Carried → t'.message = t.message → t' = t) ↔ t.NulFree)) := by
  refine ⟨⟨fun h => ?_, fun h t' => h.eq_of_message_eq⟩, fun hframed =>
    ⟨fun h => ?_, fun h t' _ => h.eq_of_message_eq⟩⟩
  · by_contra hnul
    obtain ⟨t', hne, hmessage, -⟩ := exists_message_eq_of_not_nulFree hnul
    exact hne (h t' hmessage)
  · by_contra hnul
    obtain ⟨t', hne, hmessage, hsalt, hiterations⟩ := exists_message_eq_of_not_nulFree hnul
    have hsize := hframed.size_lt
    have hlength := length_message t'
    rw [hmessage, hsalt, hiterations, length_message t] at hlength
    have hcarried : t'.Carried := carried_of_size_lt (by rw [hsalt]; omega)
    exact hne (h t' hcarried hmessage)

/-- Two users with a NUL in a name or a nonce have different handshakes that sign the same text. -/
theorem message_shared :
    ∃ t t' : Transcript, t = ⟨"a\x00b", "c", "d", [1, 2], 4096⟩ ∧
      t' = ⟨"a", "b\x00c", "d", [1, 2], 4096⟩ ∧ t.Carried ∧ t'.Carried ∧
      t.message = t'.message ∧ ¬ t = t' :=
  ⟨_, _, rfl, rfl, carried_of_size_lt (by decide), carried_of_size_lt (by decide), by decide,
    by decide⟩

end Transcript

end Skaidb

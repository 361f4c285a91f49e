import Skaidb.Auth.Scram
import Skaidb.Proto.Handshake

/-!
# The messages of the handshake

Besides its first message and the challenge, the handshake has a token of a longer exchange,
the client's proof and the server's verdict. Each begins with a tag of its own and is read
from the front of what was received, so bytes behind it do not matter. The mechanism at the
end of the first message may be left out, and this is the only message that is complete at
two lengths.
-/

namespace Skaidb

open Codec Reader

/-- The byte that an encoded `AuthFinish` begins with. -/
def tFinish : UInt8 := 12

/-- The byte that an encoded `AuthOutcome` begins with. -/
def tOutcome : UInt8 := 13

/-- The byte that an encoded `AuthToken` begins with. -/
def tToken : UInt8 := 14

/-- `AuthToken`: one leg of a token exchange, from either side. -/
structure AuthToken where
  /-- The bytes of the mechanism's token. -/
  token : List UInt8
  deriving DecidableEq

/-- The last message of the client, with its proof that it knows the password. -/
structure AuthFinish where
  /-- The proof over the auth message. -/
  clientProof : Digest
  deriving DecidableEq

/-- The last message of the server: its verdict, with its own signature or with a reason. -/
inductive AuthOutcome where
  | ok (serverSignature : Digest)
  | denied (reason : String)
  deriving DecidableEq

/-! ## The three other messages -/

/-- Encode a token: its tag, and its bytes behind their length. -/
def AuthToken.encode (m : AuthToken) : List UInt8 := [tToken] ++ writeBytes m.token

/-- What `AuthToken::decode` reads from the front of a message. -/
def AuthToken.read : Cursor AuthToken := do
  HandshakeReader.new tToken
  let token ← HandshakeReader.bytes
  pure ⟨token⟩

/-- Decode a token from the front of a message; what stands behind it is ignored. -/
def AuthToken.decode (buf : List UInt8) : Except ProtoError AuthToken := AuthToken.read.parse buf

/-- Encode the proof: its tag and its 32 bytes. -/
def AuthFinish.encode (m : AuthFinish) : List UInt8 := [tFinish] ++ m.clientProof.bytes

/-- What `AuthFinish::decode` reads from the front of a message. -/
def AuthFinish.read : Cursor AuthFinish := do
  HandshakeReader.new tFinish
  let bytes ← HandshakeReader.take 32
  let proof ← Reader.ofOption (.malformed "bad proof length") (Digest.ofBytes bytes)
  pure ⟨proof⟩

/-- Decode the proof from the front of a message; what stands behind it is ignored. -/
def AuthFinish.decode (buf : List UInt8) : Except ProtoError AuthFinish :=
  AuthFinish.read.parse buf

/-- Encode the verdict: its tag, a byte for success or denial, and the signature or the reason. -/
def AuthOutcome.encode : AuthOutcome → List UInt8
  | .ok serverSignature => [tOutcome] ++ ([1] ++ serverSignature.bytes)
  | .denied reason => [tOutcome] ++ ([0] ++ writeBytes (utf8 reason))

/-- What `AuthOutcome::decode` reads from the front of a message. -/
def AuthOutcome.read : Cursor AuthOutcome := do
  HandshakeReader.new tOutcome
  let tag ← HandshakeReader.u8
  match tag with
  | 1 =>
    let bytes ← HandshakeReader.take 32
    let signature ← Reader.ofOption (.malformed "bad signature length") (Digest.ofBytes bytes)
    pure (.ok signature)
  | 0 =>
    let reason ← HandshakeReader.string
    pure (.denied reason)
  | _ => Reader.fail (.malformed "bad outcome tag")

/-- Decode the verdict from the front of a message; what stands behind it is ignored. -/
def AuthOutcome.decode (buf : List UInt8) : Except ProtoError AuthOutcome :=
  AuthOutcome.read.parse buf

/-! ## All five -/

/-- The kinds of messages that a handshake is made of. -/
inductive HandshakeKind where
  | start
  | token
  | challenge
  | finish
  | outcome
  deriving DecidableEq

/-- A message of the handshake, of any kind. -/
inductive HandshakeMessage where
  | start (m : AuthStart)
  | token (m : AuthToken)
  | challenge (m : AuthChallenge)
  | finish (m : AuthFinish)
  | outcome (m : AuthOutcome)
  deriving DecidableEq

/-- The byte that messages of a kind begin with. -/
def HandshakeKind.tag : HandshakeKind → UInt8
  | .start => tStart
  | .token => tToken
  | .challenge => tChallenge
  | .finish => tFinish
  | .outcome => tOutcome

/-- Decode bytes with the decoder of a kind, as one family over the five messages. -/
def HandshakeKind.decode (kind : HandshakeKind) (buf : List UInt8) :
    Except ProtoError HandshakeMessage :=
  match kind with
  | .start => (AuthStart.decode buf).map .start
  | .token => (AuthToken.decode buf).map .token
  | .challenge => (AuthChallenge.decode buf).map .challenge
  | .finish => (AuthFinish.decode buf).map .finish
  | .outcome => (AuthOutcome.decode buf).map .outcome

namespace HandshakeMessage

/-- The kind that a message of the handshake is of, which its first byte tells. -/
def kind : HandshakeMessage → HandshakeKind
  | .start _ => .start
  | .token _ => .token
  | .challenge _ => .challenge
  | .finish _ => .finish
  | .outcome _ => .outcome

/-- Encode a message as messages of its kind are. -/
def encode : HandshakeMessage → List UInt8
  | .start m => m.encode
  | .token m => m.encode
  | .challenge m => m.encode
  | .finish m => m.encode
  | .outcome m => m.encode

/-- The fields of a message fit their length fields. -/
def Fits : HandshakeMessage → Prop
  | .start m => (utf8 m.username).length < 2 ^ 32 ∧ (utf8 m.clientNonce).length < 2 ^ 32
  | .token m => m.token.length < 2 ^ 32
  | .challenge m => m.salt.length < 2 ^ 32 ∧ (utf8 m.serverNonce).length < 2 ^ 32
  | .finish _ => True
  | .outcome (.ok _) => True
  | .outcome (.denied reason) => (utf8 reason).length < 2 ^ 32

end HandshakeMessage

/-! ## Reading the messages back -/

section Readers

variable {α : Type} {r : Cursor α} (c : α → HandshakeMessage)

/-- A decoder that reads a message from its encoding does so whatever bytes follow it. -/
theorem map_parse_of_reads {bytes : List UInt8} {a : α} (h : Reads r bytes a)
    (rest : List UInt8) : (r.parse (bytes ++ rest)).map c = .ok (c a) := by
  rw [h.parse rest]
  rfl

/-- Bytes that a reader refuses are not decoded by the decoder made of it. -/
theorem map_parse_of_error {input : List UInt8} (h : ∃ e, r input = .error e) :
    ∃ e, (r.parse input).map c = .error e := by
  obtain ⟨e, he⟩ := h
  exact ⟨e, by rw [parse_eq_error he]; rfl⟩

end Readers

namespace HandshakeReader

/-- What does not begin with the expected tag is refused. -/
theorem new_rejects {α : Type} {tag : UInt8} {input : List UInt8} (f : Unit → Cursor α)
    (h : ∀ rest, input ≠ tag :: rest) : ∃ e, (new tag >>= f) input = .error e := by
  cases input with
  | nil => exact ⟨_, rfl⟩
  | cons b rest =>
    have hne : b ≠ tag := fun heq => h rest (heq ▸ rfl)
    refine ⟨.malformed "unexpected handshake tag", ?_⟩
    simp [new, u8, Reader.symbol, bind_apply, hne]

/-- A tag is read the same way before more input. -/
theorem new_stable (tag : UInt8) : Stable (new tag) := by
  refine (Stable.symbol _).bind fun b => ?_
  split
  · exact Stable.fail _
  · exact Stable.pure _

/-- A 32-bit number is read the same way before more input. -/
theorem u32_stable : Stable u32 := (Stable.take _ 4).bind fun _ => Stable.pure _

/-- A byte string is read the same way before more input. -/
theorem bytes_stable : Stable bytes := u32_stable.bind fun n => Stable.take _ n.toNat

/-- A string is read the same way before more input. -/
theorem string_stable : Stable string := bytes_stable.bind fun _ => Stable.ofOption _ _

section Digests

variable {α : Type} (bad : ProtoError) (c : Digest → α)

/-- A digest is read back from its 32 bytes, as the proof and the signature are. -/
theorem digest_reads (d : Digest) :
    Reads (take 32 >>= fun bytes =>
      Reader.ofOption bad (Digest.ofBytes bytes) >>= fun d => pure (c d)) d.bytes (c d) := by
  have hbytes : Reads (take 32) d.bytes d.bytes := Reads.take _ d.length_eq
  have hdigest : Reads ((Reader.ofOption bad (Digest.ofBytes d.bytes) : Cursor Digest) >>=
      fun d => pure (c d)) [] (c d) := by
    rw [Digest.ofBytes_bytes, Reader.ofOption_some]
    exact fun _ => rfl
  have hboth := hbytes.bind (f := fun bytes =>
    (Reader.ofOption bad (Digest.ofBytes bytes) : Cursor Digest) >>= fun d => pure (c d)) hdigest
  rwa [List.append_nil] at hboth

/-- A digest is read the same way before more input. -/
theorem digest_stable :
    Stable (take 32 >>= fun bytes =>
      Reader.ofOption bad (Digest.ofBytes bytes) >>= fun d => (pure (c d) : Cursor α)) :=
  (Stable.take _ 32).bind fun _ => (Stable.ofOption _ _).bind fun _ => Stable.pure _

end Digests

end HandshakeReader

open HandshakeReader

/-- The reader of a token reads back what its encoder wrote. -/
theorem AuthToken.reads {m : AuthToken} (h : m.token.length < 2 ^ 32) :
    Reads AuthToken.read m.encode m :=
  (new_reads tToken).bind ((bytes_reads h).map AuthToken.mk)

/-- The reader of the client's proof reads back what its encoder wrote. -/
theorem AuthFinish.reads (m : AuthFinish) : Reads AuthFinish.read m.encode m :=
  (new_reads tFinish).bind (digest_reads _ AuthFinish.mk m.clientProof)

/-- The reader of the server's verdict reads back what its encoder wrote. -/
theorem AuthOutcome.reads {m : AuthOutcome} (h : (HandshakeMessage.outcome m).Fits) :
    Reads AuthOutcome.read m.encode m := by
  cases m with
  | ok signature =>
    exact (new_reads tOutcome).bind
      ((Reads.symbol _ 1).bind (digest_reads _ AuthOutcome.ok signature))
  | denied reason =>
    exact (new_reads tOutcome).bind
      ((Reads.symbol _ 0).bind ((string_reads h).map AuthOutcome.denied))

/-- A token is read the same way before more input. -/
theorem AuthToken.read_stable : Stable AuthToken.read :=
  (new_stable tToken).bind fun _ => bytes_stable.bind fun _ => Stable.pure _

/-- A challenge is read the same way before more input. -/
theorem AuthChallenge.read_stable : Stable AuthChallenge.read :=
  (new_stable tChallenge).bind fun _ => bytes_stable.bind fun _ => u32_stable.bind fun _ =>
    string_stable.bind fun _ => Stable.pure _

/-- A proof is read the same way before more input. -/
theorem AuthFinish.read_stable : Stable AuthFinish.read :=
  (new_stable tFinish).bind fun _ => digest_stable _ AuthFinish.mk

/-- A verdict is read the same way before more input. -/
theorem AuthOutcome.read_stable : Stable AuthOutcome.read := by
  refine (new_stable tOutcome).bind fun _ => (Stable.symbol _).bind fun tag => ?_
  split
  · exact digest_stable _ AuthOutcome.ok
  · exact string_stable.bind fun _ => Stable.pure _
  · exact Stable.fail _

/-- The first message is its tag and its fields in turn, the mechanism last. -/
theorem AuthStart.encode_eq (m : AuthStart) :
    m.encode = [tStart] ++ (writeBytes (utf8 m.username) ++
      (writeBytes (utf8 m.clientNonce) ++ [m.mechanism.toByte])) := by
  rw [AuthStart.encode, List.append_assoc, List.append_assoc]

/-- Without its last byte, the first message has the form from before mechanisms were announced. -/
theorem AuthStart.dropLast_encode (m : AuthStart) :
    m.encode.dropLast = [tStart] ++ (writeBytes (utf8 m.username) ++
      (writeBytes (utf8 m.clientNonce) ++ [])) := by
  rw [AuthStart.encode, List.dropLast_concat, List.append_nil, List.append_assoc]

/-- A prefix of the first message is refused, or is all of it, or lacks the mechanism. -/
theorem AuthStart.read_prefix {m : AuthStart} (hname : (utf8 m.username).length < 2 ^ 32)
    (hnonce : (utf8 m.clientNonce).length < 2 ^ 32) {p : List UInt8} (hp : p <+: m.encode) :
    (∃ e, AuthStart.read p = .error e) ∨ p = m.encode ∨ p = m.encode.dropLast := by
  rw [AuthStart.encode_eq] at hp
  -- Each field is read whole, or the prefix ends inside it and is refused.
  rcases (new_reads tStart).bind_of_front (new_stable tStart) hp with
    herror | ⟨p₁, hp₁, rfl, hread⟩
  · exact .inl herror
  rw [AuthStart.read, hread]
  rcases (string_reads hname).bind_of_front string_stable hp₁ with
    herror | ⟨p₂, hp₂, rfl, hread⟩
  · exact .inl herror
  rw [hread]
  rcases (string_reads hnonce).bind_of_front string_stable hp₂ with
    herror | ⟨p₃, hp₃, rfl, hread⟩
  · exact .inl herror
  right
  rw [AuthStart.dropLast_encode, AuthStart.encode_eq]
  rcases List.prefix_cons_iff.mp hp₃ with rfl | ⟨q, rfl, hq⟩
  · exact .inr rfl
  · rw [List.prefix_nil.mp hq]
    exact .inl rfl

/-- Without its mechanism the first message is one for SCRAM. -/
theorem AuthStart.read_dropLast {m : AuthStart} (hname : (utf8 m.username).length < 2 ^ 32)
    (hnonce : (utf8 m.clientNonce).length < 2 ^ 32) :
    AuthStart.read m.encode.dropLast = .ok ({ m with mechanism := .scramSha256 }, []) := by
  rw [AuthStart.dropLast_encode, AuthStart.read, bind_of_ok (new_reads tStart _),
    bind_of_ok (string_reads hname _), bind_of_ok (string_reads hnonce _)]
  rfl

/-! ## The messages apart -/

/-- A kind is told by its tag, so that messages of different kinds differ in their first byte. -/
theorem HandshakeKind.tag_injective {kind kind' : HandshakeKind} (h : kind.tag = kind'.tag) :
    kind = kind' := by
  cases kind <;> cases kind' <;> first | rfl | exact absurd h (by decide)

/-- What does not begin with the tag of a kind is not decoded as one. -/
theorem HandshakeKind.decode_of_tag (kind : HandshakeKind) {input : List UInt8}
    (h : ∀ rest, input ≠ kind.tag :: rest) : ∃ e, kind.decode input = .error e := by
  cases kind <;> exact map_parse_of_error _ (new_rejects _ h)

namespace HandshakeMessage

variable {m : HandshakeMessage}

/-- A message begins with the tag of its kind. -/
theorem encode_eq_cons (m : HandshakeMessage) : ∃ rest, m.encode = m.kind.tag :: rest := by
  cases m with
  | start m => exact ⟨_, rfl⟩
  | token m => exact ⟨_, rfl⟩
  | challenge m => exact ⟨_, rfl⟩
  | finish m => exact ⟨_, rfl⟩
  | outcome m => cases m <;> exact ⟨_, rfl⟩

/-- A message is decoded as it was, whatever bytes follow it. -/
theorem decode_encode_append (h : m.Fits) (rest : List UInt8) :
    m.kind.decode (m.encode ++ rest) = .ok m := by
  cases m with
  | start m => exact map_parse_of_reads _ (AuthStart.reads h.1 h.2) rest
  | token m => exact map_parse_of_reads _ (AuthToken.reads h) rest
  | challenge m => exact map_parse_of_reads _ (AuthChallenge.reads h.1 h.2) rest
  | finish m => exact map_parse_of_reads _ m.reads rest
  | outcome m => exact map_parse_of_reads _ (AuthOutcome.reads h) rest

/-- A prefix of a message is decoded as no other kind. -/
theorem decode_prefix_of_ne {kind : HandshakeKind} (hkind : kind ≠ m.kind) {p : List UInt8}
    (hp : ∃ rest, p <+: m.encode ++ rest) : ∃ e, kind.decode p = .error e := by
  apply kind.decode_of_tag
  rintro rest rfl
  obtain ⟨more, hp⟩ := hp
  obtain ⟨tail, htail⟩ := m.encode_eq_cons
  rw [htail, List.cons_append, List.cons_prefix_cons] at hp
  exact hkind (HandshakeKind.tag_injective hp.1)

/-- A strict prefix of a message is not decoded, unless it lacks only the mechanism. -/
theorem decode_strict_prefix (h : m.Fits) {p : List UInt8} (hp : p <+: m.encode)
    (hne : p ≠ m.encode) :
    (∃ e, m.kind.decode p = .error e) ∨ ∃ s, m = .start s ∧ p = m.encode.dropLast := by
  cases m with
  | start m =>
    rcases AuthStart.read_prefix h.1 h.2 hp with herror | hall | hlast
    · exact .inl (map_parse_of_error _ herror)
    · exact absurd hall hne
    · exact .inr ⟨m, rfl, hlast⟩
  | token m =>
    exact .inl (map_parse_of_error _
      ((AuthToken.reads h).prefix_rejected AuthToken.read_stable hp hne))
  | challenge m =>
    exact .inl (map_parse_of_error _
      ((AuthChallenge.reads h.1 h.2).prefix_rejected AuthChallenge.read_stable hp hne))
  | finish m =>
    exact .inl (map_parse_of_error _ (m.reads.prefix_rejected AuthFinish.read_stable hp hne))
  | outcome m =>
    exact .inl (map_parse_of_error _
      ((AuthOutcome.reads h).prefix_rejected AuthOutcome.read_stable hp hne))

/-- **The handshake's messages.** A message whose fields fit is decoded whatever follows it and
as no other kind, and its strict prefixes are decoded as no kind at all, except that a first
message without its last byte is one with the same name and nonce for SCRAM. -/
theorem handshake_messages_apart (h : m.Fits) :
    (∀ rest, m.kind.decode (m.encode ++ rest) = .ok m) ∧
    (∀ kind ≠ m.kind, ∀ rest, ∃ e, kind.decode (m.encode ++ rest) = .error e) ∧
    (∀ p, p <+: m.encode → p ≠ m.encode → ∀ kind : HandshakeKind,
      (∃ e, kind.decode p = .error e) ∨
        ∃ s, m = .start s ∧ kind = .start ∧ p = m.encode.dropLast) ∧
    ∀ s, m = .start s → HandshakeKind.decode .start m.encode.dropLast =
      .ok (.start { s with mechanism := .scramSha256 }) := by
  refine ⟨decode_encode_append h, fun kind hkind rest => ?_, fun p hp hne kind => ?_, ?_⟩
  · exact decode_prefix_of_ne hkind ⟨rest, List.prefix_rfl⟩
  · by_cases hkind : kind = m.kind
    · rcases decode_strict_prefix h hp hne with herror | ⟨s, rfl, hlast⟩
      · exact .inl (hkind ▸ herror)
      · exact .inr ⟨s, rfl, hkind, hlast⟩
    · exact .inl (decode_prefix_of_ne hkind ⟨[], by rwa [List.append_nil]⟩)
  · rintro s rfl
    have hread := AuthStart.read_dropLast h.1 h.2
    rw [HandshakeKind.decode, AuthStart.decode, Reader.parse, HandshakeMessage.encode, hread]
    rfl

/-- A first message for GSSAPI: with bytes behind it, read as a verdict, and without its last
byte. -/
theorem handshake_messages_apart_gssapi :
    HandshakeKind.decode .start ((start ⟨"bob", "n1", .gssapi⟩).encode ++ [7, 7]) =
        .ok (start ⟨"bob", "n1", .gssapi⟩) ∧
      (∃ e, HandshakeKind.decode .outcome ((start ⟨"bob", "n1", .gssapi⟩).encode ++ [7, 7]) =
        .error e) ∧
      HandshakeKind.decode .start (start ⟨"bob", "n1", .gssapi⟩).encode.dropLast =
        .ok (start ⟨"bob", "n1", .scramSha256⟩) := by
  have hfits : (start ⟨"bob", "n1", .gssapi⟩).Fits := ⟨by decide, by decide⟩
  obtain ⟨hdecode, hother, -, hlegacy⟩ := handshake_messages_apart hfits
  exact ⟨hdecode [7, 7], hother .outcome (by decide) [7, 7], hlegacy _ rfl⟩

end HandshakeMessage

end Skaidb

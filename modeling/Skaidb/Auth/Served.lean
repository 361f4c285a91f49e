import Skaidb.Auth.LoginRuns

/-!
# Logins with a server that keeps a verifier

The server of a login with a password answers the first message with the salt of its verifier and
a nonce, and the proof with its verdict. Frame by frame, in any order with the other logins of the
process, the client reaches the verdict that the verifier has on its password.
-/

namespace Skaidb

open Concurrent Concurrent.Thread

/-! ## The server -/

/-- What a server uses during one login: the verifier of the user, its nonce, and its reason when it
denies the login. -/
structure VerifyingServer where
  /-- What it keeps of the user's password. -/
  credential : ScramCredential
  /-- The nonce that it adds to the client's. -/
  serverNonce : String
  /-- Its reason when it denies a proof. -/
  reason : String
  /-- The salt fits its length field. -/
  salt_length : credential.salt.length < 2 ^ 32
  /-- The nonce fits its length field. -/
  nonce_length : (utf8 serverNonce).length < 2 ^ 32
  /-- The reason fits its length field. -/
  reason_length : (utf8 reason).length < 2 ^ 32

namespace VerifyingServer

variable (P : Primitives) (S : VerifyingServer)

/-- The server's answer to the first message: what it keeps of the salt, and its nonce. -/
def challenge : AuthChallenge := ⟨S.credential.salt, S.credential.iterations, S.serverNonce⟩

/-- The verdict of the server on a proof: its own signature when the verifier accepts the proof, and
a denial otherwise. -/
def outcome (start : AuthStart) (proof : AuthFinish) : AuthOutcome :=
  (S.credential.verify P (authMessage start.username start.clientNonce S.serverNonce
    S.credential.salt S.credential.iterations) proof.clientProof).elim (.denied S.reason) .ok

/-- What the server sends after the frames it has read. -/
def reply : List (List UInt8) → List UInt8
  | [_] => S.challenge.encode
  | [start, finish] =>
    match AuthStart.decode start, AuthFinish.decode finish with
    | .ok start, .ok finish => (S.outcome P start finish).encode
    | _, _ => (AuthOutcome.denied S.reason).encode
  | _ => (AuthOutcome.denied S.reason).encode

/-- The text a login signs with this server. -/
def transcript (username clientNonce : String) : Transcript :=
  ⟨username, clientNonce, S.serverNonce, S.credential.salt, S.credential.iterations⟩

/-- How a login with a text ends: as the verifier judges the proof, and as the client judges the
signature. -/
def result (password : String) (t : Transcript) : Except LoginError Unit :=
  match S.credential.verify P t.message (clientProof P password t.salt t.iterations t.message) with
  | some signature =>
    if password ≠ "" ∧ serverSignature P password t.salt t.iterations t.message ≠ signature then
      .error (.auth "server signature mismatch")
    else .ok ()
  | none => .error (denied S.reason)

end VerifyingServer

/-- The frame of an action that has written one. -/
def writtenFrame : QueryAnswer LoginQuery LoginAnswer → Option (List UInt8)
  | ⟨.write payload, .ok ()⟩ => some payload
  | _ => none

/-- The frames that a login has written, in their order, taken from the answers it got. -/
def writtenFrames (answers : List (QueryAnswer LoginQuery LoginAnswer)) : List (List UInt8) :=
  answers.filterMap writtenFrame

/-- A login is connected to the server: what it writes arrives, and what it reads is the reply
to what it has written. -/
def Served (P : Primitives) (S : VerifyingServer)
    (past : List (QueryAnswer LoginQuery LoginAnswer)) : QueryAnswer LoginQuery LoginAnswer → Prop
  | ⟨.write _, written⟩ => written = .ok ()
  | ⟨.read, received⟩ => received = .ok (S.reply P (writtenFrames past))
  | _ => True

instance (P : Primitives) (S : VerifyingServer)
    (past : List (QueryAnswer LoginQuery LoginAnswer)) :
    (a : QueryAnswer LoginQuery LoginAnswer) → Decidable (Served P S past a)
  | ⟨.write _, written⟩ => inferInstanceAs (Decidable (written = .ok ()))
  | ⟨.read, received⟩ =>
    inferInstanceAs (Decidable (received = .ok (S.reply P (writtenFrames past))))
  | ⟨.fetchAdd _, _⟩ | ⟨.look _, _⟩ | ⟨.keep _ _, _⟩ => isTrue trivial

variable {P : Primitives} {pid : UInt32} {gss : Option Gssapi}

/-! ## Over the wire -/

/-- The client reads the challenge of the server back as the server wrote it. -/
theorem VerifyingServer.decode_challenge (S : VerifyingServer) :
    AuthChallenge.decode S.challenge.encode = .ok S.challenge :=
  AuthChallenge.decode_encode S.salt_length S.nonce_length

/-- The client decodes from the bytes of a verdict the verdict that the server gave. -/
theorem VerifyingServer.decode_outcome (S : VerifyingServer) (start : AuthStart)
    (finish : AuthFinish) :
    AuthOutcome.decode (S.outcome P start finish).encode = .ok (S.outcome P start finish) := by
  have hfits : (HandshakeMessage.outcome (S.outcome P start finish)).Fits := by
    unfold VerifyingServer.outcome
    cases S.credential.verify P _ _ with
    | some signature => trivial
    | none => exact S.reason_length
  have hparse := (AuthOutcome.reads hfits).parse []
  rwa [List.append_nil] at hparse

/-- The server decodes from the bytes of a proof the proof that the client sent. -/
theorem AuthFinish.decode_encode (m : AuthFinish) : AuthFinish.decode m.encode = .ok m := by
  have hparse := (AuthFinish.reads m).parse []
  rwa [List.append_nil] at hparse

/-- A first message within the limit of a frame is read back. -/
theorem AuthStart.decode_of_length {m : AuthStart} (h : m.encode.length ≤ maxFrameLen) :
    AuthStart.decode m.encode = .ok m := by
  have hlimit : maxFrameLen < 2 ^ 32 := by decide
  simp only [AuthStart.encode, writeBytes, List.length_append, List.length_singleton] at h
  apply AuthStart.decode_encode <;> omega

/-- The server that has read the first message answers the proof with its verdict over the text of
both. -/
theorem VerifyingServer.reply_finish (S : VerifyingServer) {start : AuthStart}
    (hstart : start.encode.length ≤ maxFrameLen) (finish : AuthFinish) :
    S.reply P [start.encode, finish.encode] = (S.outcome P start finish).encode := by
  rw [VerifyingServer.reply, AuthStart.decode_of_length hstart, AuthFinish.decode_encode]

/-! ## The verdict on a password -/

section Verdict

variable {S : VerifyingServer} {password : String} {t : Transcript}

/-- A proof that is accepted: the client judges the signature. -/
theorem VerifyingServer.result_of_some {signature : Digest} (h : S.credential.verify P t.message
      (clientProof P password t.salt t.iterations t.message) = some signature) :
    S.result P password t =
      if password ≠ "" ∧ serverSignature P password t.salt t.iterations t.message ≠ signature then
        .error (.auth "server signature mismatch")
      else .ok () := by
  rw [VerifyingServer.result, h]

/-- A proof that is not accepted: the client is denied. -/
theorem VerifyingServer.result_of_none (h : S.credential.verify P t.message
      (clientProof P password t.salt t.iterations t.message) = none) :
    S.result P password t = .error (denied S.reason) := by
  rw [VerifyingServer.result, h]

/-- The verifier of a password accepts its proof with the signature the client expects. -/
theorem VerifyingServer.result_of_password (h : S.credential =
      ScramCredential.new P password S.credential.salt S.credential.iterations)
    (username clientNonce : String) :
    S.result P password (S.transcript username clientNonce) = .ok () := by
  have hverify (m : List UInt8) : S.credential.verify P m
      (clientProof P password S.credential.salt S.credential.iterations m) =
      some (serverSignature P password S.credential.salt S.credential.iterations m) := by
    rw [ScramCredential.verify_eq, h, if_pos]
    · rfl
    · simp only [ScramCredential.new, clientProof, clientProofSalted, saltedPassword,
        Digest.xor_xor_cancel]
  have hresult := VerifyingServer.result_of_some (t := S.transcript username clientNonce)
    (hverify (S.transcript username clientNonce).message)
  rw [hresult, if_neg]
  exact fun hmismatch => hmismatch.2 rfl

/-- The verifier of a password denies every proof but its own, if the hash tells digests apart. -/
theorem VerifyingServer.result_of_proof_ne {kept : String}
    (hsha : Function.Injective fun d : Digest => P.sha256 d.bytes) (h : S.credential =
      ScramCredential.new P kept S.credential.salt S.credential.iterations)
    (hne : clientProof P password t.salt t.iterations t.message ≠
      clientProof P kept S.credential.salt S.credential.iterations t.message) :
    S.result P password t = .error (denied S.reason) := by
  apply VerifyingServer.result_of_none
  rw [ScramCredential.verify_eq, if_neg]
  intro hstored
  apply hne
  have hkey := hsha (hstored.trans (congrArg ScramCredential.storedKey h))
  rw [← Digest.xor_xor_cancel (clientProof P password t.salt t.iterations t.message)
    (P.hmacSha256 S.credential.storedKey.bytes t.message), hkey, h]
  rfl

end Verdict

/-! ## All logins -/

/-- An answer of the cache is no written frame. -/
theorem writtenFrames_of_cache {more : List (QueryAnswer LoginQuery LoginAnswer)}
    (h : ∀ a ∈ more, OfCache a) : writtenFrames more = [] := by
  apply List.filterMap_eq_nil_iff.mpr
  rintro ⟨q, x⟩ ha
  have hcache := h _ ha
  cases q with
  | look key => rfl
  | keep key salted => rfl
  | fetchAdd counter => cases hcache
  | write payload => cases hcache
  | read => cases hcache

/-- A login with this server ends with the verdict over the text of both. -/
theorem handshake_served (S : VerifyingServer) (username password : String) :
    Ensures (fun past a => Faithful P a ∧ Served P S past a)
      (fun _ r => ∃ n : UInt64,
        r = S.result P password (S.transcript username (clientNonce pid n)))
      [] (handshake P pid username password).run := by
  refine Ensures.perform fun n _ => ?_
  refine Login.write_ensures (fun hstart => ?_) fun _ h => not_ok_of_error h.2
  refine Login.read_ensures (fun frame hframe => ?_) fun _ h => not_ok_of_error h.2
  obtain rfl : frame = S.challenge.encode := Except.ok.inj hframe.2
  refine Login.decoded_ensures (fun challenge hchallenge => ?_) fun e he => ?_
  · obtain rfl : challenge = S.challenge := Except.ok.inj
      (hchallenge.symm.trans S.decode_challenge)
    refine processSaltedPassword_ensures (fun _ _ h => h.1) fun more hmore => ?_
    refine Login.write_ensures (fun hfinish => ?_) fun _ h => not_ok_of_error h.2
    refine Login.read_ensures (fun final hfinal => ?_) fun _ h => not_ok_of_error h.2
    let t := S.transcript username (clientNonce pid n)
    let start : AuthStart := ⟨username, clientNonce pid n, .scramSha256⟩
    let proof : AuthFinish := ⟨clientProof P password t.salt t.iterations t.message⟩
    have hwritten := writtenFrames_of_cache hmore
    rw [writtenFrames] at hwritten
    have hreply : final = (S.outcome P start proof).encode := by
      rw [Except.ok.inj hfinal.2]
      simp only [writtenFrames, List.filterMap_append, List.filterMap_cons, List.filterMap_nil,
        writtenFrame, hwritten]
      exact S.reply_finish (hstart.1 rfl) proof
    have houtcome := S.decode_outcome (P := P) start proof
    rw [← hreply] at houtcome
    refine Login.decoded_ensures (fun outcome hdecoded => ?_) fun e he => ?_
    · obtain rfl : outcome = S.outcome P start proof := Except.ok.inj
        (hdecoded.symm.trans houtcome)
      cases hverify : S.credential.verify P t.message proof.clientProof with
      | some signature =>
        have hresult : S.result P password t = _ := VerifyingServer.result_of_some hverify
        have hok : S.outcome P start proof = .ok signature :=
          congrArg (Option.elim · _ AuthOutcome.ok) hverify
        rw [hok]
        dsimp only
        split_ifs with hmismatch
        · exact ⟨n, (hresult.trans (if_pos hmismatch)).symm⟩
        · exact ⟨n, (hresult.trans (if_neg hmismatch)).symm⟩
      | none =>
        have hresult : S.result P password t = _ := VerifyingServer.result_of_none hverify
        have hdenied : S.outcome P start proof = .denied S.reason :=
          congrArg (fun verdict => verdict.elim (.denied S.reason) AuthOutcome.ok) hverify
        rw [hdenied]
        exact ⟨n, hresult.symm⟩
    · rw [houtcome] at he
      cases he
  · rw [S.decode_challenge] at he
    cases he

/-- **Logins with a verifying server.** Whatever the other logins of the process do in between,
a login with a password over a connection to a server that keeps a verifier ends, if it does, as
the verifier judges the proof over the text of both. The verifier of the password accepts it, and
if the hash tells digests apart, the verifier of a password denies every other proof. -/
theorem logins_served {events : List LoginEvent} {i : ℕ}
    {r : Running LoginQuery LoginAnswer (Except LoginError Unit)} {a : Account}
    {bindings : Option (List UInt8)} {S : VerifyingServer} {result : Except LoginError Unit}
    (hr : (logins P pid gss events).threads[i]? = some r)
    (hprogram : r.program = (authenticate P pid gss bindings a).run) (hpassword : a.ByPassword)
    (hserved : Allowed (Served P S) [] r.answers) (hresult : r.result = some result) :
    ∃ t : Transcript, (∃ n, t = S.transcript a.username (clientNonce pid n)) ∧
      result = S.result P a.password t ∧
      (S.credential = ScramCredential.new P a.password t.salt t.iterations → result = .ok ()) ∧
      ∀ kept, S.credential = ScramCredential.new P kept t.salt t.iterations →
        (Function.Injective fun d : Digest => P.sha256 d.bytes) →
        clientProof P a.password t.salt t.iterations t.message ≠
          clientProof P kept t.salt t.iterations t.message →
        result = .error (denied S.reason) := by
  have hfaithful : Allowed (fun _ => Faithful P) [] r.answers :=
    Allowed.of_forall fun _ => logins_faithful hr
  obtain ⟨n, rfl⟩ := (handshake_served S a.username a.password).returns
    (hpassword.returns hprogram hresult) (hfaithful.and hserved)
  refine ⟨S.transcript a.username (clientNonce pid n), ⟨n, rfl⟩, rfl, ?_, ?_⟩
  · intro hcredential
    exact VerifyingServer.result_of_password hcredential a.username (clientNonce pid n)
  · intro kept hkept hsha hne
    exact VerifyingServer.result_of_proof_ne hsha hkept hne

/-! ## A login that is accepted and one that is denied -/

/-- A server that keeps the verifier of Ann's password, as the witness below has it. -/
def keptServer : VerifyingServer where
  credential := ScramCredential.new constantPrimitives "secret" [1, 2] 1
  serverNonce := "s"
  reason := "no"
  salt_length := by decide
  nonce_length := by decide
  reason_length := by decide

/-- The first 32 bytes, with zeros where there are fewer. -/
def digestOf (bytes : List UInt8) : Digest :=
  ⟨(bytes.take 32).rightpad 32 0, by simp⟩

/-- A digest is the digest of its bytes. -/
theorem digestOf_bytes (d : Digest) : digestOf d.bytes = d := by
  have hbytes : (d.bytes.take 32).rightpad 32 0 = d.bytes := by
    rw [List.take_of_length_le d.length_eq.le, List.rightpad, d.length_eq, Nat.sub_self,
      List.replicate_zero, List.append_nil]
  cases d
  exact Digest.mk.injEq .. ▸ hbytes

/-- Hash functions that tell passwords apart: a key is turned by one byte. -/
def turningPrimitives : Primitives :=
  ⟨fun key _ => digestOf (key.rotate 1), digestOf, fun password _ _ => digestOf password⟩

/-- A server that keeps another password than Ann's. -/
def strangeServer : VerifyingServer where
  credential := ScramCredential.new turningPrimitives "other" [1, 2] 1
  serverNonce := "s"
  reason := "no"
  salt_length := by decide
  nonce_length := by decide
  reason_length := by decide

/-- The events of a login of Ann at the server that keeps the verifier of another password. -/
def strangeLogin : List LoginEvent :=
  [.dial ⟨"ann", "secret", none, false⟩ none, .advance 0 (.receiving []),
    .advance 0 (.receiving []), .advance 0 (.receiving strangeServer.challenge.encode),
    .advance 0 (.receiving []), .advance 0 (.receiving []), .advance 0 (.receiving []),
    .advance 0 (.receiving (AuthOutcome.denied "no").encode)]

/-- Ann is accepted by the server that keeps her password, and denied by the one that keeps
another. -/
theorem twoLogins_served :
    (∃ t : Transcript, (∃ n, t = keptServer.transcript "ann" (clientNonce 7 n)) ∧
      keptServer.result constantPrimitives "secret" t = .ok ()) ∧
    ∃ r ∈ (logins turningPrimitives 7 none strangeLogin).threads[0]?,
      r.result = some (.error (denied "no")) := by
  constructor
  · obtain ⟨r, hr, hresult, hserved⟩ :
        ∃ r ∈ (logins constantPrimitives 7 none twoLogins).threads[0]?,
          r.result = some (.ok ()) ∧
            Allowed (Served constantPrimitives keptServer) [] r.answers := by
      decide +kernel
    have hprogram : (logins constantPrimitives 7 none twoLogins).threads[0]?.map Running.program =
        some (authenticate constantPrimitives 7 none none ⟨"ann", "secret", none, false⟩).run :=
      rfl
    rw [hr] at hprogram
    obtain ⟨t, hnonce, ht, -⟩ :=
      logins_served hr (Option.some.inj hprogram) ⟨rfl, rfl⟩ hserved hresult
    exact ⟨t, hnonce, ht.symm⟩
  · obtain ⟨r, hr, hsome, hserved⟩ :
        ∃ r ∈ (logins turningPrimitives 7 none strangeLogin).threads[0]?,
          r.result.isSome = true ∧
            Allowed (Served turningPrimitives strangeServer) [] r.answers := by
      decide +kernel
    have hprogram : (logins turningPrimitives 7 none strangeLogin).threads[0]?.map
        Running.program =
          some (authenticate turningPrimitives 7 none none ⟨"ann", "secret", none, false⟩).run :=
      rfl
    rw [hr] at hprogram
    obtain ⟨result, hresult⟩ := Option.isSome_iff_exists.mp hsome
    obtain ⟨t, ⟨n, rfl⟩, -, -, hdenial⟩ :=
      logins_served hr (Option.some.inj hprogram) ⟨rfl, rfl⟩ hserved hresult
    have hapart : Function.Injective fun d : Digest => turningPrimitives.sha256 d.bytes := by
      intro d d' h
      rw [← digestOf_bytes d, ← digestOf_bytes d']
      exact h
    -- The proofs do not depend on the text that is signed.
    have hproofs : clientProof turningPrimitives "secret" [1, 2] 1 [] ≠
        clientProof turningPrimitives "other" [1, 2] 1 [] := by decide
    exact ⟨r, hr, hresult.trans (congrArg some (hdenial "other" rfl hapart hproofs))⟩

end Skaidb

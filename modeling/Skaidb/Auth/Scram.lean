import Skaidb.Logic.Program
import Skaidb.Types.Slice
import Skaidb.Types.Value

/-!
# SCRAM-SHA-256

The server keeps a verifier of a password and checks the client's proof against it; the
client computes the proof and the expected answer from the salted password, which it caches.
The hash functions are parameters. A verifier is stored as text, and the reader of that text
slices it by bytes, so a slice that ends inside a character is told apart from a refusal.
-/

namespace Skaidb

open Codec Program

/-- The output of the hash functions, which always has 32 bytes. -/
structure Digest where
  /-- The 32 bytes of the digest. -/
  bytes : List UInt8
  /-- There are 32 of them. -/
  length_eq : bytes.length = 32
  deriving DecidableEq

/-- The hash functions that the exchange is built from. Their definitions are not part of this file,
so that what is proved holds for any of them. -/
structure Primitives where
  /-- HMAC-SHA-256 of a key and a message. -/
  hmacSha256 : List UInt8 → List UInt8 → Digest
  /-- SHA-256 of any bytes. -/
  sha256 : List UInt8 → Digest
  /-- PBKDF2 of a password, a salt and an iteration count. -/
  pbkdf2HmacSha256 : List UInt8 → List UInt8 → UInt32 → Digest

/-- Combine two digests byte by byte with an exclusive or. -/
def Digest.xor (a b : Digest) : Digest where
  bytes := List.zipWith (· ^^^ ·) a.bytes b.bytes
  length_eq := by rw [List.length_zipWith, a.length_eq, b.length_eq, Nat.min_self]

/-- `ct_eq`: equality of two byte strings that looks at every byte of both. -/
def ctEq (a b : List UInt8) : Bool :=
  if a.length ≠ b.length then false
  else (List.zipWith (· ^^^ ·) a b).foldl (· ||| ·) 0 == 0

/-- `ScramCredential`: what a server keeps of one user's password, to verify proofs with. -/
structure ScramCredential where
  /-- The salt that the password was mixed with. -/
  salt : List UInt8
  /-- How often the hash was iterated, at least once in practice. -/
  iterations : UInt32
  /-- The hash of the client key. -/
  storedKey : Digest
  /-- The key of the server's signature. -/
  serverKey : Digest
  deriving DecidableEq

/-! ## The text of a verifier -/

/-- Read bytes from pairs of hexadecimal digits; a text that cuts a character in two panics as
`unhex` of the source does. -/
def unhex (text : List Char) : OptionT (Except Panic) (List UInt8) :=
  if byteLength text % 2 ≠ 0 then failure else unhexPairs (byteLength text / 2) text

/-- The digest with the given bytes, none unless there are 32 of them. -/
def Digest.ofBytes (bytes : List UInt8) : Option Digest :=
  if h : bytes.length = 32 then some ⟨bytes, h⟩ else none

/-- The next part of a text that was split. -/
def nextPart : List (List Char) → Option (List Char × List (List Char))
  | [] => none
  | part :: parts => some (part, parts)

namespace ScramCredential

/-- The verifier as the text `iterations:salt_hex:stored_hex:server_hex`, in which it is stored. -/
def encode (c : ScramCredential) : String :=
  String.ofList (Nat.toDigits 10 c.iterations.toNat ++ ':' :: (hexText c.salt ++ ':' ::
    (hexText c.storedKey.bytes ++ ':' :: hexText c.serverKey.bytes)))

/-- Read a verifier from its text form; there is none when a field is missing or is not of its
form. -/
def decode (s : String) : Except Panic (Option ScramCredential) := OptionT.run do
  let parts := s.toList.splitOn ':'
  let (part, parts) ← OptionT.mk (pure (nextPart parts))
  let iterations ← OptionT.mk (pure (fromStrRadix 10 (2 ^ 32) part))
  let (part, parts) ← OptionT.mk (pure (nextPart parts))
  let salt ← unhex part
  let (part, parts) ← OptionT.mk (pure (nextPart parts))
  let stored ← unhex part
  let storedKey ← OptionT.mk (pure (Digest.ofBytes stored))
  let (part, parts) ← OptionT.mk (pure (nextPart parts))
  let server ← unhex part
  let serverKey ← OptionT.mk (pure (Digest.ofBytes server))
  if (nextPart parts).isSome then failure
  else pure ⟨salt, UInt32.ofNat iterations, storedKey, serverKey⟩

end ScramCredential

/-! ## The exchange -/

section Exchange

variable (P : Primitives)

/-- The verifier that a server keeps for a password: the two keys derived from it, but not the
password. -/
def ScramCredential.new (password : String) (salt : List UInt8) (iterations : UInt32) :
    ScramCredential :=
  let salted := P.pbkdf2HmacSha256 (utf8 password) salt iterations
  let clientKey := P.hmacSha256 salted.bytes (utf8 "Client Key")
  { salt
    iterations
    storedKey := P.sha256 clientKey.bytes
    serverKey := P.hmacSha256 salted.bytes (utf8 "Server Key") }

/-- Check a client's proof over a message; the server's signature on success. -/
def ScramCredential.verify (c : ScramCredential) (authMessage : List UInt8)
    (clientProof : Digest) : Option Digest :=
  let clientSignature := P.hmacSha256 c.storedKey.bytes authMessage
  let clientKey := clientProof.xor clientSignature
  if ctEq (P.sha256 clientKey.bytes).bytes c.storedKey.bytes then
    some (P.hmacSha256 c.serverKey.bytes authMessage)
  else none

/-- The password as the exchange uses it, salted and hashed as often as the server asks for. -/
def saltedPassword (password : String) (salt : List UInt8) (iterations : UInt32) : Digest :=
  P.pbkdf2HmacSha256 (utf8 password) salt iterations

/-- `client_proof_salted`: the client's proof of a login from its salted password. -/
def clientProofSalted (salted : Digest) (authMessage : List UInt8) : Digest :=
  let clientKey := P.hmacSha256 salted.bytes (utf8 "Client Key")
  let storedKey := P.sha256 clientKey.bytes
  let clientSignature := P.hmacSha256 storedKey.bytes authMessage
  clientKey.xor clientSignature

/-- The expected signature of the server from a salted password. -/
def serverSignatureSalted (salted : Digest) (authMessage : List UInt8) : Digest :=
  let serverKey := P.hmacSha256 salted.bytes (utf8 "Server Key")
  P.hmacSha256 serverKey.bytes authMessage

/-- The client's proof that it knows the password: the client key combined with its signature of the
message. -/
def clientProof (password : String) (salt : List UInt8) (iterations : UInt32)
    (authMessage : List UInt8) : Digest :=
  clientProofSalted P (saltedPassword P password salt iterations) authMessage

/-- `server_signature`: the signature that the client expects of the server. -/
def serverSignature (password : String) (salt : List UInt8) (iterations : UInt32)
    (authMessage : List UInt8) : Digest :=
  serverSignatureSalted P (saltedPassword P password salt iterations) authMessage

/-! ## The cache of salted passwords -/

/-- The key of the cache of salted passwords: a password, a salt and an iteration count. -/
abbrev SaltedKey := String × List UInt8 × UInt32

/-- The salted passwords derived so far, by credential. -/
abbrev SaltedCache := List (SaltedKey × Digest)

/-- Keep a salted password; a cache of 64 is emptied first. -/
def SaltedCache.put (cache : SaltedCache) (key : SaltedKey) (salted : Digest) : SaltedCache :=
  let cache := if cache.length ≥ 64 then [] else cache
  (key, salted) :: cache.filter fun e => e.1 ≠ key

/-- The salted password from the cache, or derived and kept. -/
def cachedSaltedPassword (cache : SaltedCache) (key : SaltedKey) : Digest × SaltedCache :=
  match cache.lookup key with
  | some hit => (hit, cache)
  | none =>
    let salted := saltedPassword P key.1 key.2.1 key.2.2
    (salted, cache.put key salted)

end Exchange

/-! ## Reading a verifier back -/

/-- Bytes are read back from the hexadecimal digits they were stored as. -/
theorem unhex_hexText (bytes : List UInt8) : unhex (hexText bytes) = pure bytes := by
  have hbytes := byteLength_hexText bytes
  have heven : byteLength (hexText bytes) % 2 = 0 := by omega
  have hhalf : byteLength (hexText bytes) / 2 = bytes.length := by omega
  rw [unhex, if_neg (by omega), hhalf]
  exact unhexPairs_hexText bytes

/-- A text of hexadecimal digits holds no separator, so that fields of digits can be told apart. -/
theorem not_mem_of_digits {text : List Char} (h : ∀ c ∈ text, IsHexDigit c) {sep : Char}
    (hsep : ¬ IsHexDigit sep) : sep ∉ text := fun hmem => hsep (h sep hmem)

/-- The bytes of a digest make up the digest again. -/
theorem Digest.ofBytes_bytes (d : Digest) : Digest.ofBytes d.bytes = some d := by
  simp [Digest.ofBytes, d.length_eq]

/-- **Stored verifiers.** A verifier is read back from its storage form. -/
theorem ScramCredential.decode_encode (c : ScramCredential) :
    ScramCredential.decode c.encode = .ok (some c) := by
  have hnum := @not_mem_of_digits (Nat.toDigits 10 c.iterations.toNat)
    (fun _ => isHexDigit_of_mem_toDigits) ':' (by decide)
  have hhex (bytes : List UInt8) := @not_mem_of_digits (hexText bytes)
    (fun _ => isHexDigit_of_mem_hexText) ':' (by decide)
  have hparts : c.encode.toList.splitOn ':' = [Nat.toDigits 10 c.iterations.toNat,
      hexText c.salt, hexText c.storedKey.bytes, hexText c.serverKey.bytes] := by
    rw [ScramCredential.encode, String.toList_ofList]
    simp only [List.splitOn_append_cons_self, List.splitOn_eq_singleton hnum,
      List.splitOn_eq_singleton (hhex _), List.singleton_append]
  have hiterations : fromStrRadix 10 (2 ^ 32) (Nat.toDigits 10 c.iterations.toNat) =
      some c.iterations.toNat := fromStrRadix_toDigits c.iterations.toNat_lt
  unfold ScramCredential.decode
  rw [hparts]
  simp only [OptionT.run, OptionT.mk, bind, OptionT.bind, Except.bind, pure, OptionT.pure,
    Except.pure, nextPart, hiterations, unhex_hexText, Digest.ofBytes_bytes, Option.isSome_none,
    Bool.false_eq_true, if_false, UInt32.ofNat_toNat]

/-! ## Agreement -/

/-- Digests with the same bytes are equal, as the length is part of the type. -/
theorem Digest.ext_bytes {a b : Digest} (h : a.bytes = b.bytes) : a = b := by
  cases a
  cases b
  congr

/-- Masking with a digest twice gives back what was masked, as the verifier needs it. -/
@[simp] theorem Digest.xor_xor_cancel (a b : Digest) : (a.xor b).xor b = a := by
  refine Digest.ext_bytes (List.ext_getElem ?_ fun i hi hi' => ?_)
  · rw [((a.xor b).xor b).length_eq, a.length_eq]
  · simp only [Digest.xor, List.getElem_zipWith, UInt8.xor_assoc, UInt8.xor_self, UInt8.xor_zero]

/-- All bits of the bytes together are none when every byte is zero. -/
theorem foldl_or_eq_zero (bytes : List UInt8) (acc : UInt8) :
    bytes.foldl (· ||| ·) acc = 0 ↔ acc = 0 ∧ ∀ b ∈ bytes, b = 0 := by
  induction bytes generalizing acc with
  | nil => simp
  | cons b bytes ih =>
    rw [List.foldl_cons, ih, UInt8.or_eq_zero_iff]
    simp [and_assoc]

/-- The comparison in constant time decides equality and nothing else. -/
theorem ctEq_iff {a b : List UInt8} : ctEq a b = true ↔ a = b := by
  unfold ctEq
  split
  · next hlen =>
    have hne : a ≠ b := fun h => hlen (congrArg List.length h)
    simp [hne]
  · next hlen =>
    rw [not_not] at hlen
    rw [beq_iff_eq, foldl_or_eq_zero]
    induction a generalizing b with
    | nil => simp [List.eq_nil_of_length_eq_zero hlen.symm]
    | cons x a ih =>
      cases b with
      | nil => simp at hlen
      | cons y b =>
        have htail := ih (by simpa using hlen)
        simp only [true_and] at htail ⊢
        simp only [List.zipWith_cons_cons, List.mem_cons, forall_eq_or_imp,
          UInt8.xor_eq_zero_iff, htail, List.cons.injEq]

section Agreement

variable {P : Primitives}

/-- A proof is accepted when it unmasks to a key with the stored hash. -/
theorem ScramCredential.verify_eq (c : ScramCredential) (authMessage : List UInt8)
    (proof : Digest) :
    c.verify P authMessage proof =
      if P.sha256 (proof.xor (P.hmacSha256 c.storedKey.bytes authMessage)).bytes = c.storedKey
      then some (P.hmacSha256 c.serverKey.bytes authMessage) else none := by
  unfold ScramCredential.verify
  refine if_congr (ctEq_iff.trans ⟨Digest.ext_bytes, congrArg Digest.bytes⟩) rfl rfl

/-- Every salted password that the cache keeps is the derived one of its key. -/
def SaltedCache.Sound (P : Primitives) (cache : SaltedCache) : Prop :=
  ∀ e ∈ cache, e.2 = saltedPassword P e.1.1 e.1.2.1 e.1.2.2

/-- A cache that holds derived passwords only still does so once one is put in under its key. -/
theorem SaltedCache.Sound.put {cache : SaltedCache} (h : cache.Sound P) (key : SaltedKey) :
    (cache.put key (saltedPassword P key.1 key.2.1 key.2.2)).Sound P := by
  intro e he
  rcases List.mem_cons.mp he with rfl | he
  · rfl
  · have hold := (List.mem_filter.mp he).1
    split at hold
    · cases hold
    · exact h e hold

/-- The cache answers with the derived password, found or computed, and stays sound. -/
theorem cachedSaltedPassword_eq {cache : SaltedCache} (h : cache.Sound P) (key : SaltedKey) :
    (cachedSaltedPassword P cache key).1 = saltedPassword P key.1 key.2.1 key.2.2 ∧
      (cachedSaltedPassword P cache key).2.Sound P := by
  unfold cachedSaltedPassword
  split
  · next hit hhit => exact ⟨h (key, hit) (Ascending.mem_of_lookup hhit), h⟩
  · exact ⟨rfl, h.put key⟩

end Agreement

/-- **SCRAM agreement.** Whatever the hash functions are, the verifier of a password, also
after it was stored and read back, accepts the client's proof over a message, and its
signature is the one the client expects, also from a salted password taken from the cache
after any calls. If SHA-256 tells digests apart, no other proof is accepted. -/
theorem scram_agreement (P : Primitives) (password : String) (salt : List UInt8)
    (iterations : UInt32) (authMessage : List UInt8) :
    (ScramCredential.new P password salt iterations).verify P authMessage
        (clientProof P password salt iterations authMessage) =
      some (serverSignature P password salt iterations authMessage) ∧
    ScramCredential.decode (ScramCredential.new P password salt iterations).encode =
      .ok (some (ScramCredential.new P password salt iterations)) ∧
    (∀ cache, Run (fun cache key => (cachedSaltedPassword P cache key).2) (fun _ _ => True)
        ([] : SaltedCache) cache →
      clientProof P password salt iterations authMessage = clientProofSalted P
        (cachedSaltedPassword P cache (password, salt, iterations)).1 authMessage ∧
      serverSignature P password salt iterations authMessage = serverSignatureSalted P
        (cachedSaltedPassword P cache (password, salt, iterations)).1 authMessage) ∧
    ((∀ a b : Digest, P.sha256 a.bytes = P.sha256 b.bytes → a = b) → ∀ proof,
      (ScramCredential.new P password salt iterations).verify P authMessage proof ≠ none →
        proof = clientProof P password salt iterations authMessage) := by
  refine ⟨?_, ScramCredential.decode_encode _, fun cache hrun => ?_, fun hinj proof hproof => ?_⟩
  · rw [ScramCredential.verify_eq, if_pos]
    · rfl
    · simp only [ScramCredential.new, clientProof, clientProofSalted, saltedPassword,
        Digest.xor_xor_cancel]
  · have hsound : cache.Sound P := by
      refine Run.invariant (I := SaltedCache.Sound P) (fun c key _ hc => ?_) hrun ?_
      · exact (cachedSaltedPassword_eq hc key).2
      · intro e he
        cases he
    rw [(cachedSaltedPassword_eq hsound (password, salt, iterations)).1]
    exact ⟨rfl, rfl⟩
  · rw [ScramCredential.verify_eq, ne_eq, ite_eq_right_iff, not_forall] at hproof
    obtain ⟨hkey, -⟩ := hproof
    have hunmasked := hinj _ _ hkey
    rw [← Digest.xor_xor_cancel proof (P.hmacSha256
      (ScramCredential.new P password salt iterations).storedKey.bytes authMessage), hunmasked]
    rfl

end Skaidb

import Skaidb.Auth.SaltedCache
import Skaidb.Logic.Thread
import Skaidb.Proto.AuthMessages

/-!
# Logging in

A client logs in with a password, a Kerberos ticket or its certificate. The logins of a process
run on connections of their own but share two counters, from which the nonces of the clients
come, and the cache of salted passwords; between any two actions of one login there may be
actions of the others. What is read from a connection is whatever the other side has sent.
-/

namespace Skaidb

open Concurrent Concurrent.Thread

/-! ## What a login asks for -/

/-- The counters behind the nonces; each handshake has its own. -/
inductive NonceCounter where
  | scram
  | gssapi
  deriving DecidableEq

/-- What a login asks of the world outside: the next number of a nonce counter, a look into the
cache of salted passwords, a frame to be written or read. -/
inductive LoginQuery where
  /-- Take the next number of a counter. -/
  | fetchAdd (counter : NonceCounter)
  /-- Write a frame with this payload on the connection. -/
  | write (payload : List UInt8)
  /-- Read the next frame from the connection. -/
  | read
  /-- Look for a salted password in the cache. -/
  | look (key : SaltedKey)
  /-- Keep a salted password in the cache. -/
  | keep (key : SaltedKey) (salted : Digest)

/-- What each action of a login is answered with by the world outside. -/
abbrev LoginAnswer : LoginQuery → Type
  | .fetchAdd _ => UInt64
  | .write _ => Except IoError Unit
  | .read => Except IoError (List UInt8)
  | .look _ => Option Digest
  | .keep _ _ => Unit

/-- Why a login fails. A refused connection is an input or output error of its own kind. -/
inductive LoginError where
  | io (e : IoError)
  | refused (reason : String)
  | proto (e : ProtoError)
  | auth (msg : String)
  deriving DecidableEq

/-- A part of a login: a thread of the actions above that may fail with an error of the login. -/
abbrev Login (α : Type) := ExceptT LoginError (Thread LoginQuery LoginAnswer) α

/-- Write a frame on the connection; a failure ends the login with its I/O error. -/
def Login.write (payload : List UInt8) : Login Unit :=
  attempt (LoginQuery.write payload) fun written => written.mapError LoginError.io

/-- Read a frame from the connection; a failure ends the login with its I/O error. -/
def Login.read : Login (List UInt8) :=
  attempt LoginQuery.read fun received => received.mapError LoginError.io

/-- Go on with a decoded frame, or fail with the error that decoding it gave. -/
def Login.decoded {α : Type} : Except ProtoError α → Login α
  | .ok m => pure m
  | .error e => throw (.proto e)

/-- The reasons that are capacity refusals and not rejected credentials begin with this. -/
def capacityDenial : String := "too many connections:"

/-- The error with which a login ends when the server denies it for a reason. -/
def denied (reason : String) : LoginError :=
  if capacityDenial.toList.isPrefixOf reason.toList then .refused reason else .auth reason

/-- The nonce of a process for a number of its counter. -/
def clientNonce (pid : UInt32) (n : UInt64) : String :=
  String.ofList ('c' :: (Nat.toDigits 10 pid.toNat ++ '.' :: Nat.toDigits 10 n.toNat))

/-! ## The three handshakes -/

section Handshakes

variable (P : Primitives) (pid : UInt32)

/-- The salted password from the cache of the process, or derived and kept. -/
def processSaltedPassword (key : SaltedKey) : Login Digest := do
  match ← perform (LoginQuery.look key) with
  | some hit => pure hit
  | none =>
    perform (LoginQuery.keep key (derived P key))
    pure (derived P key)

/-- The client side of the SCRAM handshake. The server's signature is verified when the password
is not empty. -/
def handshake (username password : String) : Login Unit := do
  let n ← perform (LoginQuery.fetchAdd .scram)
  Login.write (AuthStart.encode ⟨username, clientNonce pid n, .scramSha256⟩)
  let frame ← Login.read
  let challenge ← Login.decoded (AuthChallenge.decode frame)
  let am := authMessage username (clientNonce pid n) challenge.serverNonce challenge.salt
    challenge.iterations
  let salted ← processSaltedPassword P (password, challenge.salt, challenge.iterations)
  Login.write (AuthFinish.encode ⟨clientProofSalted P salted am⟩)
  let frame ← Login.read
  match ← Login.decoded (AuthOutcome.decode frame) with
  | .ok signature =>
    if password ≠ "" ∧ serverSignatureSalted P salted am ≠ signature then
      throw (.auth "server signature mismatch")
  | .denied reason => throw (denied reason)

/-- The client side of EXTERNAL: the certificate is the credential. -/
def handshakeExternal (username : String) : Login Unit := do
  Login.write (AuthStart.encode ⟨username, "", .external⟩)
  let frame ← Login.read
  match ← Login.decoded (AuthOutcome.decode frame) with
  | .ok _ => pure ()
  | .denied reason => throw (denied reason)

/-- `GssError`: what the Kerberos library, or its absence, may answer in place of a token. -/
inductive GssError where
  | notSupported
  | krb5 (text : String)

/-- The text of an error of the Kerberos mechanism, as a login reports it. -/
def GssError.text : GssError → String
  | .notSupported => "GSSAPI authentication is not supported in this build"
  | .krb5 text => "kerberos: " ++ text

mutual

/-- The client side of a context that is not established: what the library makes of the next
token of the server. A step consumes the context. -/
inductive ClientHandshake where
  | mk (step : List UInt8 → ClientStep)

/-- What a client's context makes of a reply: a failure, another token to send, or the end of the
negotiation, perhaps with a last token. -/
inductive ClientStep where
  | failed (e : GssError)
  | continue (next : ClientHandshake) (token : List UInt8)
  | done (token : Option (List UInt8))

end

/-- Give a reply to the context of a client, which returns its next step. -/
def ClientHandshake.step : ClientHandshake → List UInt8 → ClientStep
  | .mk step => step

/-- A frame that is no token has to be the verdict. -/
def gssOutcome (frame : List UInt8) : Login Unit :=
  match AuthOutcome.decode frame with
  | .ok (.ok _) => pure ()
  | .ok (.denied reason) => throw (denied reason)
  | .error _ => throw (.auth "gssapi: unexpected handshake frame")

/-- The loop of `handshake_gssapi` once the context is established: only a verdict is still to
come. -/
def gssEstablished : Login Unit := do
  let frame ← Login.read
  match AuthToken.decode frame with
  | .ok _ => throw (.auth "gssapi: unexpected server token")
  | .error _ => gssOutcome frame

mutual

/-- The loop while the context is not established. -/
def gssLoop : ClientHandshake → Login Unit
  | .mk step => do
    let frame ← Login.read
    match AuthToken.decode frame with
    | .ok tok => gssStepped (step tok.token)
    | .error _ => gssOutcome frame

/-- The loop after a step of the context. -/
def gssStepped : ClientStep → Login Unit
  | .failed e => throw (.auth e.text)
  | .continue next token => do
    Login.write (AuthToken.encode ⟨token⟩)
    gssLoop next
  | .done none => gssEstablished
  | .done (some token) => do
    Login.write (AuthToken.encode ⟨token⟩)
    gssEstablished

end

/-- The Kerberos library of a build: a context for a service and channel bindings, with the
first token. -/
abbrev Gssapi := String → Option (List UInt8) → Except GssError (ClientHandshake × List UInt8)

/-- The client side of the GSSAPI handshake, with the bindings to the channel. -/
def handshakeGssapi (gss : Option Gssapi) (bindings : Option (List UInt8))
    (username targetSpn : String) : Login Unit :=
  match gss with
  | none => throw (.auth "this driver was built without Kerberos (GSSAPI) support")
  | some new => do
    let n ← perform (LoginQuery.fetchAdd .gssapi)
    match new targetSpn bindings with
    | .error e => throw (.auth ("gssapi init failed (did you kinit?): " ++ e.text))
    | .ok (client, token0) => do
      Login.write (AuthStart.encode ⟨username, clientNonce pid n, .gssapi⟩)
      Login.write (AuthToken.encode ⟨token0⟩)
      gssLoop client

end Handshakes

end Skaidb

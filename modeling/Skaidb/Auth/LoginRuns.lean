import Skaidb.Auth.Login

/-!
# The logins of a process

Any number of logins run at once. They share the two counters and the cache of salted passwords;
what is written and read on their connections is up to the servers, which may be anyone. A login
with a password that is accepted has met a server that signed the text of this login, and no
other login of the process signs that text, so nothing recorded from one login is of use in
another.
-/

namespace Skaidb

open Concurrent Concurrent.Thread

/-! ## The process -/

/-- The credentials a client is configured with, which decide the mechanism it logs in by. -/
structure Account where
  /-- The name that the client announces. -/
  username : String
  /-- The password, unused by the other two ways. -/
  password : String
  /-- The service to get a Kerberos ticket for. -/
  gssapiSpn : Option String
  /-- The certificate is the credential. -/
  certAuth : Bool

/-- The client logs in by SCRAM, neither with a ticket nor by its certificate. -/
def Account.ByPassword (a : Account) : Prop := a.gssapiSpn = none ∧ a.certAuth = false

/-- What lies outside an action: what becomes of a write, what a read gives, and whether the
lock of the cache can be taken. -/
structure LoginOutside where
  /-- What becomes of a write. -/
  written : Except IoError Unit
  /-- What a read gives. -/
  received : Except IoError (List UInt8)
  /-- The lock can be taken. -/
  locked : Bool

/-- What the logins of a process share: the cache of salted passwords and the counters of nonces. -/
structure LoginState where
  /-- How often a number of each counter was taken. -/
  nonces : NonceCounter → ℕ
  /-- The cache of salted passwords. -/
  cache : SaltedCache

/-- The state of a process before its first login: the nonce counters are at zero and the cache of
salted passwords is empty. -/
def LoginState.start : LoginState := ⟨fun _ => 0, []⟩

/-- What an action does and is answered with. A counter wraps at 64 bits. -/
def LoginState.answer : (q : LoginQuery) → LoginOutside → LoginState → LoginAnswer q × LoginState
  | .fetchAdd counter, _, s =>
    (UInt64.ofNat (s.nonces counter),
      { s with nonces := Function.update s.nonces counter (s.nonces counter + 1) })
  | .write payload, outside, s => (writeFrame payload >>= fun _ => outside.written, s)
  | .read, outside, s => (outside.received, s)
  | .look key, outside, s => (if outside.locked then s.cache.lookup key else none, s)
  | .keep key salted, outside, s =>
    ((), { s with cache := if outside.locked then s.cache.put key salted else s.cache })

/-- What happens next in a process: a client dials, over a channel that may have bindings, or
a login comes to its next action. -/
inductive LoginEvent where
  | dial (a : Account) (bindings : Option (List UInt8))
  | advance (login : ℕ) (outside : LoginOutside)

section Process

variable (P : Primitives) (pid : UInt32) (gss : Option Gssapi)

/-- The handshake a client runs on a new connection. -/
def authenticate (bindings : Option (List UInt8)) (a : Account) : Login Unit :=
  match a.gssapiSpn with
  | some spn => handshakeGssapi pid gss bindings a.username spn
  | none =>
    if a.certAuth then handshakeExternal a.username else handshake P pid a.username a.password

/-- The event of a process as one of its threads. -/
def LoginEvent.event :
    LoginEvent → ThreadEvent LoginQuery LoginAnswer (Except LoginError Unit) LoginOutside
  | .dial a bindings => .start (authenticate P pid gss bindings a).run
  | .advance i outside => .advance i outside

/-- The threads of a process and the state they share after some events, in whatever order the
logins take their turns. -/
def logins (events : List LoginEvent) :
    Shared LoginQuery LoginAnswer (Except LoginError Unit) LoginState :=
  run LoginState.answer LoginState.start (events.map (LoginEvent.event P pid gss))

/-! ## What a login asks -/

/-- The query keeps nothing in the cache of salted passwords but a password salted as its key
says. -/
def KeepsDerived : LoginQuery → Prop
  | .keep key salted => salted = derived P key
  | _ => True

variable {P pid gss}

/-- Writing a frame is no matter of the cache. -/
theorem Login.write_asks (payload : List UInt8) :
    (Login.write payload).run.Asks (KeepsDerived P) :=
  Asks.attempt trivial _

/-- Reading a frame is no matter of the cache. -/
theorem Login.read_asks : Login.read.run.Asks (KeepsDerived P) := Asks.attempt trivial _

/-- Decoding a frame is no action, so nothing is kept in the cache by it. -/
theorem Login.decoded_asks {α : Type} (r : Except ProtoError α) :
    (Login.decoded r).run.Asks (KeepsDerived P) := by
  cases r <;> trivial

/-- The section with the process-wide cache keeps a salted password only after it has derived that
one itself. -/
theorem processSaltedPassword_asks (key : SaltedKey) :
    (processSaltedPassword P key).run.Asks (KeepsDerived P) := by
  refine Asks.bindExcept (Asks.attempt trivial _) fun found => ?_
  cases found with
  | some hit => trivial
  | none =>
    have hderived : KeepsDerived P (.keep key (derived P key)) := rfl
    exact Asks.bindExcept (Asks.attempt hderived _) fun _ => trivial

/-- The SCRAM handshake keeps salted passwords only under the keys they are derived from. -/
theorem handshake_asks (username password : String) :
    (handshake P pid username password).run.Asks (KeepsDerived P) := by
  refine Asks.bindExcept (Asks.attempt trivial _) fun n => ?_
  refine Asks.bindExcept (Login.write_asks _) fun _ => ?_
  refine Asks.bindExcept Login.read_asks fun frame => ?_
  refine Asks.bindExcept (Login.decoded_asks _) fun challenge => ?_
  refine Asks.bindExcept (processSaltedPassword_asks _) fun salted => ?_
  refine Asks.bindExcept (Login.write_asks _) fun _ => ?_
  refine Asks.bindExcept Login.read_asks fun frame => ?_
  refine Asks.bindExcept (Login.decoded_asks _) fun outcome => ?_
  cases outcome with
  | ok signature =>
    dsimp only
    split_ifs <;> trivial
  | denied reason => trivial

/-- The EXTERNAL handshake keeps no salted password at all. -/
theorem handshakeExternal_asks (username : String) :
    (handshakeExternal username).run.Asks (KeepsDerived P) := by
  refine Asks.bindExcept (Login.write_asks _) fun _ => ?_
  refine Asks.bindExcept Login.read_asks fun frame => ?_
  refine Asks.bindExcept (Login.decoded_asks _) fun outcome => ?_
  cases outcome <;> trivial

/-- Reading the verdict at the end of a Kerberos handshake keeps no salted password. -/
theorem gssOutcome_asks (frame : List UInt8) : (gssOutcome frame).run.Asks (KeepsDerived P) := by
  unfold gssOutcome
  split <;> trivial

/-- The loop over an established context puts nothing into the cache of salted passwords. -/
theorem gssEstablished_asks : gssEstablished.run.Asks (KeepsDerived P) := by
  refine Asks.bindExcept Login.read_asks fun frame => ?_
  split
  · trivial
  · exact gssOutcome_asks frame

mutual

/-- The loop over a context that is not established. -/
theorem gssLoop_asks (client : ClientHandshake) : (gssLoop client).run.Asks (KeepsDerived P) := by
  cases client with
  | mk step =>
    rw [gssLoop]
    refine Asks.bindExcept Login.read_asks fun frame => ?_
    split
    · exact gssStepped_asks _
    · exact gssOutcome_asks frame

/-- Whatever step a context takes, the loop from there on puts nothing into the cache. -/
theorem gssStepped_asks (leg : ClientStep) : (gssStepped leg).run.Asks (KeepsDerived P) := by
  cases leg with
  | failed e =>
    rw [gssStepped]
    trivial
  | «continue» next token =>
    rw [gssStepped]
    exact Asks.bindExcept (Login.write_asks _) fun _ => gssLoop_asks next
  | done token =>
    cases token with
    | none =>
      rw [gssStepped]
      exact gssEstablished_asks
    | some token =>
      rw [gssStepped]
      exact Asks.bindExcept (Login.write_asks _) fun _ => gssEstablished_asks

end

/-- Whichever handshake an account leads to, it keeps salted passwords only under the keys they are
derived from. -/
theorem authenticate_asks (bindings : Option (List UInt8)) (a : Account) :
    (authenticate P pid gss bindings a).run.Asks (KeepsDerived P) := by
  unfold authenticate
  split
  · next spn =>
    unfold handshakeGssapi
    split
    · trivial
    · refine Asks.bindExcept (Asks.attempt trivial _) fun n => ?_
      split
      · trivial
      · refine Asks.bindExcept (Login.write_asks _) fun _ => ?_
        refine Asks.bindExcept (Login.write_asks _) fun _ => ?_
        exact gssLoop_asks _
  · split_ifs
    · exact handshakeExternal_asks _
    · exact handshake_asks _ _

/-! ## What a login is answered -/

variable (P) in
/-- A password that is found is the derived one, and a frame that is written is within the
limit. -/
def Faithful : QueryAnswer LoginQuery LoginAnswer → Prop
  | ⟨.look key, found⟩ => ∀ salted, found = some salted → salted = derived P key
  | ⟨.write payload, written⟩ => written = .ok () → payload.length ≤ maxFrameLen
  | _ => True

/-- A sound cache stays sound, and what a login is answered from it is faithful. -/
theorem answer_sound {q : LoginQuery} {s : LoginState} (hq : KeepsDerived P q)
    (hs : s.cache.Sound P) (outside : LoginOutside) :
    (LoginState.answer q outside s).2.cache.Sound P ∧
      Faithful P ⟨q, (LoginState.answer q outside s).1⟩ := by
  cases q with
  | fetchAdd counter => exact ⟨hs, trivial⟩
  | write payload =>
    refine ⟨hs, ?_⟩
    intro hwritten
    apply (writeFrame_eq_ok_iff payload).mp
    cases hframe : writeFrame payload with
    | ok bytes => exact ⟨bytes, rfl⟩
    | error e =>
      change writeFrame payload >>= (fun _ => outside.written) = .ok () at hwritten
      rw [hframe] at hwritten
      cases hwritten
  | read => exact ⟨hs, trivial⟩
  | look key =>
    refine ⟨hs, ?_⟩
    intro salted hfound
    obtain ⟨-, hfound⟩ := Option.ite_none_right_eq_some.mp hfound
    exact hs (key, salted) (Ascending.mem_of_lookup hfound)
  | keep key salted =>
    obtain rfl : salted = derived P key := hq
    refine ⟨?_, trivial⟩
    show SaltedCache.Sound P (if outside.locked then _ else _)
    split_ifs
    · exact hs.put key
    · exact hs

/-! ## A login that is accepted -/

/-- What the answers of an accepted login with a password show: the messages that were carried
and, unless the password is empty, the signature of the server over the text of this login. -/
structure ProofAccepted (P : Primitives) (password : String) (t : Transcript)
    (answers : List (QueryAnswer LoginQuery LoginAnswer)) : Prop where
  /-- The first message was written. -/
  started : ⟨.write t.start.encode, .ok ()⟩ ∈ answers
  /-- The challenge was read. -/
  challenged : ∃ frame, ⟨.read, .ok frame⟩ ∈ answers ∧
    AuthChallenge.decode frame = .ok t.challenge
  /-- The proof was written. -/
  proved : ⟨.write (AuthFinish.encode
    ⟨clientProof P password t.salt t.iterations t.message⟩), .ok ()⟩ ∈ answers
  /-- The signature was read. -/
  signed : password ≠ "" → ∃ frame, ⟨.read, .ok frame⟩ ∈ answers ∧
    AuthOutcome.decode frame =
      .ok (.ok (serverSignature P password t.salt t.iterations t.message))

/-- The query is about the cache of salted passwords, which answers it without the world outside. -/
def OfCache : QueryAnswer LoginQuery LoginAnswer → Prop
  | ⟨.look _, _⟩ => True
  | ⟨.keep _ _, _⟩ => True
  | _ => False

/-- A login that has failed has not succeeded; what follows from its success follows from
nothing. -/
theorem not_ok_of_error {α ε : Type} {p : Prop} {e : ε} {a : α}
    (h : Except.error e = Except.ok a) : p := by
  cases h

section Rules

variable {β : Type} {allowed : List (QueryAnswer LoginQuery LoginAnswer) →
    QueryAnswer LoginQuery LoginAnswer → Prop}
  {post : List (QueryAnswer LoginQuery LoginAnswer) → Except LoginError β → Prop}
  {past : List (QueryAnswer LoginQuery LoginAnswer)}

/-- To prove what a login ensures that goes on with a write, prove it of what follows the write, and
of the failure when the write fails. -/
theorem Login.write_ensures {payload : List UInt8} {f : Unit → Login β}
    (hok : allowed past ⟨.write payload, .ok ()⟩ →
      Ensures allowed post (past ++ [⟨.write payload, .ok ()⟩]) (f ()).run)
    (herror : ∀ e, allowed past ⟨.write payload, .error e⟩ →
      post (past ++ [⟨.write payload, .error e⟩]) (.error (.io e))) :
    Ensures allowed post past (Login.write payload >>= f).run := by
  refine Ensures.attempt fun written hwritten => ?_
  cases written with
  | ok _ => exact hok hwritten
  | error e => exact herror e hwritten

/-- To prove what a login ensures that goes on with a read, prove it of what follows each frame, and
of the failure when the read fails. -/
theorem Login.read_ensures {f : List UInt8 → Login β}
    (hok : ∀ frame, allowed past ⟨.read, .ok frame⟩ →
      Ensures allowed post (past ++ [⟨.read, .ok frame⟩]) (f frame).run)
    (herror : ∀ e, allowed past ⟨.read, .error e⟩ →
      post (past ++ [⟨.read, .error e⟩]) (.error (.io e))) :
    Ensures allowed post past (Login.read >>= f).run := by
  refine Ensures.attempt fun received hreceived => ?_
  cases received with
  | ok frame => exact hok frame hreceived
  | error e => exact herror e hreceived

/-- To prove what a login ensures that goes on with a decoded frame, prove it of what follows each
message, and of the failure when it does not decode. -/
theorem Login.decoded_ensures {α : Type} {r : Except ProtoError α} {f : α → Login β}
    (hok : ∀ m, r = .ok m → Ensures allowed post past (f m).run)
    (herror : ∀ e, r = .error e → post past (.error (.proto e))) :
    Ensures allowed post past (Login.decoded r >>= f).run := by
  cases r with
  | ok m => exact hok m rfl
  | error e => exact herror e rfl

/-- What follows the salted password, which is the derived one, found or not. -/
theorem processSaltedPassword_ensures {key : SaltedKey} {f : Digest → Login β}
    (hfound : ∀ past a, allowed past a → Faithful P a)
    (h : ∀ more, (∀ a ∈ more, OfCache a) →
      Ensures allowed post (past ++ more) (f (derived P key)).run) :
    Ensures allowed post past (processSaltedPassword P key >>= f).run := by
  refine Ensures.bindExcept (Ensures.perform fun found hallowed => ?_)
  cases found with
  | some hit =>
    obtain rfl := hfound _ _ hallowed hit rfl
    exact h [_] (by simp [OfCache])
  | none =>
    refine Ensures.perform fun _ _ => ?_
    rw [List.append_assoc]
    exact h _ (by simp [OfCache])

end Rules

/-- A handshake that succeeds has been accepted over the text with its own nonce. -/
theorem handshake_ensures (username password : String) :
    Ensures (fun _ => Faithful P)
      (fun answers r => r = .ok () → ∃ (n : UInt64) (t : Transcript),
        ⟨.fetchAdd .scram, n⟩ ∈ answers ∧ t.username = username ∧
          t.clientNonce = clientNonce pid n ∧ ProofAccepted P password t answers)
      [] (handshake P pid username password).run := by
  refine Ensures.perform fun n _ => ?_
  refine Login.write_ensures (fun _ => ?_) fun _ _ => not_ok_of_error
  refine Login.read_ensures (fun frame _ => ?_) fun _ _ => not_ok_of_error
  refine Login.decoded_ensures (fun challenge hchallenge => ?_) fun _ _ => not_ok_of_error
  refine processSaltedPassword_ensures (fun _ _ h => h) fun more _ => ?_
  refine Login.write_ensures (fun _ => ?_) fun _ _ => not_ok_of_error
  refine Login.read_ensures (fun final _ => ?_) fun _ _ => not_ok_of_error
  refine Login.decoded_ensures (fun outcome houtcome => ?_) fun _ _ => not_ok_of_error
  cases outcome with
  | denied reason => exact not_ok_of_error
  | ok signature =>
    dsimp only
    split_ifs with hmismatch
    · exact not_ok_of_error
    · rintro -
      let t : Transcript := ⟨username, clientNonce pid n, challenge.serverNonce, challenge.salt,
        challenge.iterations⟩
      refine ⟨n, t, by simp, rfl, rfl, ?_⟩
      constructor
      · simp [t, Transcript.start]
      · exact ⟨frame, by simp, hchallenge⟩
      · simp [t, Transcript.message, clientProof, derived]
      · intro hpassword
        refine ⟨final, by simp, ?_⟩
        rw [houtcome, ← not_not.mp (not_and.mp hmismatch hpassword)]
        rfl

/-! ## Texts of different logins -/

/-- The nonces of a process tell its numbers apart. -/
theorem clientNonce_injective {m n : UInt64} (h : clientNonce pid m = clientNonce pid n) :
    m = n := by
  have hlist := congrArg String.toList h
  simp only [clientNonce, String.toList_ofList, List.cons.injEq, true_and,
    List.append_cancel_left_eq] at hlist
  exact UInt64.toNat_inj.mp (Codec.toDigits_injective hlist)

/-- A nonce does not contain the separator of the signed text. -/
theorem nul_notMem_clientNonce (n : UInt64) : '\x00' ∉ (clientNonce pid n).toList := by
  have hdigits {k : ℕ} : '\x00' ∉ Nat.toDigits 10 k :=
    Transcript.nul_notMem_of_isHexDigit fun c => Codec.isHexDigit_of_mem_toDigits
  rw [clientNonce, String.toList_ofList]
  simp [hdigits]

/-- A text with a separator behind its first part determines the part, when the part has none. -/
theorem eq_of_append_separator {α : Type} {mark : α} {x y rest rest' : List α} (hx : mark ∉ x)
    (hy : mark ∉ y) (h : x ++ mark :: rest = y ++ mark :: rest') : x = y ∧ rest = rest' := by
  obtain heq | ⟨m, rfl, -⟩ | ⟨m, rfl, -⟩ := Codec.append_separator_inj h
  · exact heq
  · exact absurd (by simp) hy
  · exact absurd (by simp) hx

/-- Texts with different nonces of the client are different, whatever the server sends. -/
theorem clientNonce_eq_of_message_eq {t t' : Transcript} (hname : '\x00' ∉ t.username.toList)
    (hname' : '\x00' ∉ t'.username.toList) (hnonce : '\x00' ∉ t.clientNonce.toList)
    (hnonce' : '\x00' ∉ t'.clientNonce.toList) (h : t.message = t'.message) :
    t.clientNonce = t'.clientNonce := by
  have hfields := Transcript.message_eq_iff.mp h
  simp only [Transcript.fields, List.intercalate_cons_cons, List.append_assoc,
    List.singleton_append] at hfields
  obtain ⟨-, hrest⟩ := eq_of_append_separator hname hname' hfields
  obtain ⟨hnonces, -⟩ := eq_of_append_separator hnonce hnonce' hrest
  exact String.toList_inj.mp hnonces

/-! ## All logins -/

/-- In every run, every answer that a login gets from the cache is the derived password. -/
theorem logins_faithful {events : List LoginEvent} {i : ℕ}
    {r : Running LoginQuery LoginAnswer (Except LoginError Unit)}
    (hr : (logins P pid gss events).threads[i]? = some r) : ∀ x ∈ r.answers, Faithful P x := by
  have hasks : ∀ program, .start program ∈ events.map (LoginEvent.event P pid gss) →
      program.Asks (KeepsDerived P) := by
    intro program hprogram
    obtain ⟨e, -, he⟩ := List.mem_map.mp hprogram
    cases e with
    | dial a bindings =>
      obtain rfl := ThreadEvent.start.inj he
      exact authenticate_asks bindings a
    | advance i outside => cases he
  have hempty : LoginState.start.cache.Sound P := by
    intro e he
    cases he
  exact (run_answers (J := fun s => s.cache.Sound P)
    (fun q outside s hq hs => answer_sound hq hs outside) hempty hasks).2 r
    (List.mem_of_getElem? hr)

/-- A login with a password that has returned is a SCRAM handshake that has returned. -/
theorem Account.ByPassword.returns {a : Account} (h : a.ByPassword)
    {bindings : Option (List UInt8)}
    {r : Running LoginQuery LoginAnswer (Except LoginError Unit)}
    (hprogram : r.program = (authenticate P pid gss bindings a).run)
    {result : Except LoginError Unit} (hresult : r.result = some result) :
    Returns (handshake P pid a.username a.password).run r.answers result := by
  have hreturns := Running.returns hresult
  rw [hprogram, authenticate, h.1, h.2] at hreturns
  exact hreturns

/-- The number that was taken of a counter. -/
def nonceNumber (counter : NonceCounter) : QueryAnswer LoginQuery LoginAnswer → Option UInt64
  | ⟨.fetchAdd c, n⟩ => if c = counter then some n else none
  | _ => none

/-- Each counter hands out numbers by counting up, whichever login asks. -/
theorem answer_issues (counter : NonceCounter) :
    Issues LoginState.answer (nonceNumber counter) (fun s => s.nonces counter) UInt64.ofNat := by
  constructor
  · intro q outside s n hn
    cases q with
    | fetchAdd c =>
      obtain ⟨rfl, hnumber⟩ := Option.ite_none_right_eq_some.mp hn
      exact ⟨(Option.some.inj hnumber).symm, Function.update_self ..⟩
    | write payload => cases hn
    | read => cases hn
    | look key => cases hn
    | keep key salted => cases hn
  · intro q outside s hn
    cases q with
    | fetchAdd c =>
      have hne : counter ≠ c := by
        rintro rfl
        exact Option.some_ne_none _ ((if_pos rfl).symm.trans hn)
      exact Function.update_of_ne hne ..
    | write payload => rfl
    | read => rfl
    | look key => rfl
    | keep key salted => rfl

/-- A number that a login has taken is taken by no other, until the counter has wrapped. -/
theorem logins_nonces_apart {events : List LoginEvent} (hevents : events.length ≤ 2 ^ 64)
    (counter : NonceCounter) {i j : ℕ}
    {r r' : Running LoginQuery LoginAnswer (Except LoginError Unit)}
    (hr : (logins P pid gss events).threads[i]? = some r)
    (hr' : (logins P pid gss events).threads[j]? = some r') (hij : i ≠ j) {n : UInt64}
    (hn : n ∈ r.tickets (nonceNumber counter)) : n ∉ r'.tickets (nonceNumber counter) := by
  have hinjective : Set.InjOn UInt64.ofNat {n | n < LoginState.start.nonces counter +
      (events.map (LoginEvent.event P pid gss)).length} := by
    intro x hx y hy heq
    have hlength : LoginState.start.nonces counter +
        (events.map (LoginEvent.event P pid gss)).length ≤ 2 ^ 64 := by
      rw [List.length_map]
      exact (Nat.zero_add _).trans_le hevents
    have hwords := congrArg UInt64.toNat heq
    rwa [UInt64.toNat_ofNat_of_lt' (hx.trans_le hlength),
      UInt64.toNat_ofNat_of_lt' (hy.trans_le hlength)] at hwords
  exact tickets_apart (answer_issues counter) hinjective hr hr' hij hn

variable (P pid gss) in
/-- What holds of the logins of a process: an accepted login with a password has met a server
that signed its text, and no other login, however far it has come and whatever challenge it
gets, signs the same text. -/
def SignedApart (s : Shared LoginQuery LoginAnswer (Except LoginError Unit) LoginState) : Prop :=
  ∀ (i : ℕ) (r : Running LoginQuery LoginAnswer (Except LoginError Unit)) (a : Account)
    (bindings : Option (List UInt8)), s.threads[i]? = some r →
    r.program = (authenticate P pid gss bindings a).run → a.ByPassword →
    r.result = some (.ok ()) →
    ∃ t : Transcript, t.username = a.username ∧ ProofAccepted P a.password t r.answers ∧
      ('\x00' ∉ a.username.toList → ∀ j r', j ≠ i → s.threads[j]? = some r' →
        ∀ n ∈ r'.tickets (nonceNumber .scram), ∀ t' : Transcript,
          t'.clientNonce = clientNonce pid n → '\x00' ∉ t'.username.toList → t'.message ≠ t.message)

/-- The logins of a process sign different texts, whatever their order and whoever answers
them, as long as the counter has not wrapped. -/
theorem logins_signed_apart (P : Primitives) (pid : UInt32) (gss : Option Gssapi)
    (events : List LoginEvent) (hevents : events.length ≤ 2 ^ 64) :
    SignedApart P pid gss (logins P pid gss events) := by
  intro i r a bindings hr hprogram hpassword hresult
  have hreturns := hpassword.returns hprogram hresult
  have hallowed : Allowed (fun _ => Faithful P) [] r.answers :=
    Allowed.of_forall fun _ => logins_faithful hr
  obtain ⟨n, t, hn, hname, hnonce, haccepted⟩ :=
    (handshake_ensures a.username a.password).returns hreturns hallowed rfl
  refine ⟨t, hname, haccepted, ?_⟩
  intro hnul j r' hij hr' n' hn' t' hnonce' hnul' hmessage
  have hsame : n' = n := by
    apply @clientNonce_injective pid
    rw [← hnonce, ← hnonce']
    apply clientNonce_eq_of_message_eq hnul' (hname ▸ hnul) _ _ hmessage
    · rw [hnonce']
      exact nul_notMem_clientNonce n'
    · rw [hnonce]
      exact nul_notMem_clientNonce n
  have hticket : n ∈ r.tickets (nonceNumber .scram) :=
    List.mem_filterMap.mpr ⟨⟨.fetchAdd .scram, n⟩, hn, rfl⟩
  exact logins_nonces_apart hevents .scram hr hr' hij.symm hticket (hsame ▸ hn')

end Process

/-! ## Two logins at once -/

/-- A digest of zeros, which the hash functions of the example return. -/
def zeroDigest : Digest := ⟨List.replicate 32 0, List.length_replicate⟩

/-- Hash functions that tell nothing apart, to run logins with by computation. -/
def constantPrimitives : Primitives :=
  ⟨fun _ _ => zeroDigest, fun _ => zeroDigest, fun _ _ _ => zeroDigest⟩

/-- All goes well, and a frame is read. -/
def LoginOutside.receiving (frame : List UInt8) : LoginOutside := ⟨.ok (), .ok frame, true⟩

/-- Ann logs in while Bob has just taken his nonce. -/
def twoLogins : List LoginEvent :=
  [.dial ⟨"ann", "secret", none, false⟩ none, .advance 0 (.receiving []),
    .dial ⟨"bob", "pass", none, false⟩ none, .advance 0 (.receiving []),
    .advance 0 (.receiving (AuthChallenge.encode ⟨[1, 2], 1, "s"⟩)), .advance 1 (.receiving []),
    .advance 0 (.receiving []), .advance 0 (.receiving []), .advance 0 (.receiving []),
    .advance 0 (.receiving (AuthOutcome.ok zeroDigest).encode)]

/-- Two logins under way at once, where Ann's is accepted and signed apart from Bob's. -/
theorem twoLogins_signed_apart : twoLogins.length ≤ 2 ^ 64 ∧
    (logins constantPrimitives 7 none twoLogins).threads.map Running.result =
      [some (.ok ()), none] ∧
    SignedApart constantPrimitives 7 none (logins constantPrimitives 7 none twoLogins) := by
  have hlength : twoLogins.length ≤ 2 ^ 64 := by decide
  refine ⟨hlength, by decide +kernel, ?_⟩
  exact logins_signed_apart constantPrimitives 7 none twoLogins hlength

end Skaidb

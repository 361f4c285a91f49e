import Skaidb.Auth.Served

/-!
# Logins with a Kerberos ticket

The client's security context is stepped with one token of the server after the other, and each
step may give a token to send. A login that is accepted has read a verdict; up to there the frames
on the connection are the conversation of the two contexts, whatever the server sends and whatever
other logins do.
-/

namespace Skaidb

open Concurrent Concurrent.Thread

/-- What a context replies to the tokens of the server. An established context takes no more. -/
def ClientHandshake.replies : ClientHandshake → List (List UInt8) → Option (List (List UInt8))
  | _, [] => some []
  | client, token :: tokens =>
    match client.step token with
    | .failed _ => none
    | .continue next reply => (next.replies tokens).map (reply :: ·)
    | .done reply => if tokens = [] then some reply.toList else none

/-- What a context replies to the tokens behind a step, none when it does not get to its end. -/
def ClientStep.replies : ClientStep → List (List UInt8) → Option (List (List UInt8))
  | .failed _, _ => none
  | .continue next reply, tokens => (next.replies tokens).map (reply :: ·)
  | .done reply, tokens => if tokens = [] then some reply.toList else none

/-- A context replies to a token as its step does. -/
theorem ClientHandshake.replies_cons (step : List UInt8 → ClientStep) (token : List UInt8)
    (tokens : List (List UInt8)) :
    (ClientHandshake.mk step).replies (token :: tokens) = (step token).replies tokens := by
  rw [ClientHandshake.replies, ClientHandshake.step]
  cases step token <;> rfl

/-- The frame of an action that has read one. -/
def readFrame : QueryAnswer LoginQuery LoginAnswer → Option (List UInt8)
  | ⟨.read, .ok frame⟩ => some frame
  | _ => none

/-- The frames that a login has read, in their order, taken from the answers it got. -/
def framesRead (answers : List (QueryAnswer LoginQuery LoginAnswer)) : List (List UInt8) :=
  answers.filterMap readFrame

/-- The frames on the connection are a negotiation that was accepted: the server sent frames
with tokens and then the verdict, and the client sent the replies to the tokens. -/
def Negotiated (replies : List (List UInt8) → Option (List (List UInt8)))
    (received sent : List (List UInt8)) : Prop :=
  ∃ frames tokens answered verdict signature, replies tokens = some answered ∧
    received = frames ++ [verdict] ∧
    frames.map AuthToken.decode = tokens.map (fun token => .ok ⟨token⟩) ∧
    AuthOutcome.decode verdict = .ok (.ok signature) ∧
    sent = answered.map fun token => AuthToken.encode ⟨token⟩

/-- What the loop does after the answers so far ends in a negotiation that was accepted. -/
def EndsNegotiated (replies : List (List UInt8) → Option (List (List UInt8)))
    (past answers : List (QueryAnswer LoginQuery LoginAnswer)) (r : Except LoginError Unit) :
    Prop :=
  r = .ok () → ∃ more, answers = past ++ more ∧
    Negotiated replies (framesRead more) (writtenFrames more)

section Loops

variable {P : Primitives} {pid : UInt32} {allowed : List (QueryAnswer LoginQuery LoginAnswer) →
    QueryAnswer LoginQuery LoginAnswer → Prop}

/-- The loop succeeds on a verdict only when that verdict accepts the login. -/
theorem gssOutcome_ensures (past : List (QueryAnswer LoginQuery LoginAnswer)) (frame : List UInt8) :
    Ensures allowed (fun answers r => r = .ok () → answers = past ∧
      ∃ signature, AuthOutcome.decode frame = .ok (.ok signature)) past (gssOutcome frame).run := by
  unfold gssOutcome
  split
  · next signature h => exact fun _ => ⟨rfl, signature, h⟩
  · exact not_ok_of_error
  · exact not_ok_of_error

/-- A loop over tokens that reads a verdict at once ends in the negotiation of a context that has
replied to no token. -/
theorem Ensures.verdict {replies : List (List UInt8) → Option (List (List UInt8))}
    (hreplies : replies [] = some []) (past : List (QueryAnswer LoginQuery LoginAnswer))
    (frame : List UInt8) :
    Ensures allowed (EndsNegotiated replies past) (past ++ [⟨.read, .ok frame⟩])
      (gssOutcome frame).run := by
  apply (gssOutcome_ensures _ frame).mono
  rintro answers r h hr
  obtain ⟨rfl, signature, hsignature⟩ := h hr
  exact ⟨[⟨.read, .ok frame⟩], rfl, [], [], [], frame, signature, hreplies, rfl, rfl, hsignature,
    rfl⟩

/-- The loop over an established context reads nothing but a verdict. -/
theorem gssEstablished_ensures (past : List (QueryAnswer LoginQuery LoginAnswer)) :
    Ensures allowed (EndsNegotiated (ClientStep.done none).replies past) past
      gssEstablished.run := by
  refine Login.read_ensures (fun frame _ => ?_) fun _ _ => not_ok_of_error
  split
  · exact not_ok_of_error
  · apply Ensures.verdict
    rfl

/-- A token that is sent before the rest of a negotiation. -/
theorem EndsNegotiated.write {replies replies' : List (List UInt8) → Option (List (List UInt8))}
    {reply : List UInt8} {past answers : List (QueryAnswer LoginQuery LoginAnswer)}
    {r : Except LoginError Unit}
    (hreplies : ∀ tokens answered, replies tokens = some answered →
      replies' tokens = some (reply :: answered))
    (h : EndsNegotiated replies
      (past ++ [⟨.write (AuthToken.encode ⟨reply⟩), .ok ()⟩]) answers r) :
    EndsNegotiated replies' past answers r := by
  intro hr
  obtain ⟨more, rfl, frames, tokens, answered, verdict, signature, hanswered, hread, hframes,
    haccepted, hsent⟩ := h hr
  refine ⟨⟨.write (AuthToken.encode ⟨reply⟩), .ok ()⟩ :: more, by simp, frames, tokens,
    reply :: answered, verdict, signature, hreplies _ _ hanswered, hread, hframes, haccepted, ?_⟩
  rw [List.map_cons, ← hsent]
  rfl

mutual

/-- The loop over a context that is not established. -/
theorem gssLoop_ensures (client : ClientHandshake)
    (past : List (QueryAnswer LoginQuery LoginAnswer)) :
    Ensures allowed (EndsNegotiated client.replies past) past (gssLoop client).run := by
  cases client with
  | mk step =>
    rw [gssLoop]
    refine Login.read_ensures (fun frame _ => ?_) fun _ _ => not_ok_of_error
    split
    · next tok htok =>
      apply (gssStepped_ensures (step tok.token) _).mono
      rintro answers r h hr
      obtain ⟨more, rfl, frames, tokens, answered, verdict, signature, hanswered, hread, hframes,
        haccepted, hsent⟩ := h hr
      refine ⟨⟨.read, .ok frame⟩ :: more, by simp, frame :: frames, tok.token :: tokens, answered,
        verdict, signature, ?_, ?_, ?_, haccepted, hsent⟩
      · rw [ClientHandshake.replies_cons, hanswered]
      · rw [List.cons_append, ← hread]
        rfl
      · rw [List.map_cons, List.map_cons, htok, hframes]
    · apply Ensures.verdict
      rfl

/-- Whatever step a context takes, the loop from there on succeeds only with the replies of that
context. -/
theorem gssStepped_ensures (leg : ClientStep) (past : List (QueryAnswer LoginQuery LoginAnswer)) :
    Ensures allowed (EndsNegotiated leg.replies past) past (gssStepped leg).run := by
  cases leg with
  | failed e =>
    rw [gssStepped]
    exact not_ok_of_error
  | «continue» next token =>
    rw [gssStepped]
    refine Login.write_ensures (fun _ => ?_) fun _ _ => not_ok_of_error
    apply (gssLoop_ensures next _).mono
    intro answers r h
    apply h.write
    intro tokens answered hanswered
    rw [ClientStep.replies, hanswered]
    rfl
  | done token =>
    cases token with
    | none =>
      rw [gssStepped]
      exact gssEstablished_ensures past
    | some token =>
      rw [gssStepped]
      refine Login.write_ensures (fun _ => ?_) fun _ _ => not_ok_of_error
      apply (gssEstablished_ensures _).mono
      intro answers r h
      apply h.write
      intro tokens answered hanswered
      obtain ⟨htokens, hanswered⟩ := Option.ite_none_right_eq_some.mp hanswered
      obtain rfl : [] = answered := Option.some.inj hanswered
      exact if_pos htokens

end

/-- A GSSAPI handshake that succeeds took a nonce, began a context and sent what that context
replied. -/
theorem handshakeGssapi_ensures (new : Gssapi) (bindings : Option (List UInt8))
    (username spn : String) :
    Ensures allowed (fun answers r => r = .ok () → ∃ n client token sent,
      ⟨.fetchAdd .gssapi, n⟩ ∈ answers ∧ new spn bindings = .ok (client, token) ∧
      writtenFrames answers = AuthStart.encode ⟨username, clientNonce pid n, .gssapi⟩ ::
        AuthToken.encode ⟨token⟩ :: sent ∧
      Negotiated client.replies (framesRead answers) sent)
      [] (handshakeGssapi pid (some new) bindings username spn).run := by
  refine Ensures.perform fun n _ => ?_
  split
  · exact not_ok_of_error
  · next client token hnew =>
    refine Login.write_ensures (fun _ => ?_) fun _ _ => not_ok_of_error
    refine Login.write_ensures (fun _ => ?_) fun _ _ => not_ok_of_error
    apply (gssLoop_ensures client _).mono
    rintro answers r h hr
    obtain ⟨more, rfl, hnegotiated⟩ := h hr
    exact ⟨n, client, token, writtenFrames more, by simp, hnew, rfl, hnegotiated⟩

end Loops

/-- **Logins with a ticket.** Whatever the servers send and in whatever order the logins of the
process go on, a login with a ticket that is accepted has announced itself with a nonce that no
other login has taken, sent the first token of a context for the service and the channel, and then
sent exactly the replies of this context to the tokens that came before the verdict, in order. -/
theorem logins_negotiated {new : Gssapi} {events : List LoginEvent}
    (hevents : events.length ≤ 2 ^ 64) {i : ℕ}
    {r : Running LoginQuery LoginAnswer (Except LoginError Unit)} {a : Account} {spn : String}
    {bindings : Option (List UInt8)}
    (hr : (logins P pid (some new) events).threads[i]? = some r)
    (hprogram : r.program = (authenticate P pid (some new) bindings a).run)
    (hspn : a.gssapiSpn = some spn) (hresult : r.result = some (.ok ())) :
    ∃ (n : UInt64) (client : ClientHandshake) (token : List UInt8) (sent : List (List UInt8)),
      new spn bindings = .ok (client, token) ∧
      writtenFrames r.answers = AuthStart.encode ⟨a.username, clientNonce pid n, .gssapi⟩ ::
        AuthToken.encode ⟨token⟩ :: sent ∧
      Negotiated client.replies (framesRead r.answers) sent ∧
      ∀ j r', j ≠ i → (logins P pid (some new) events).threads[j]? = some r' →
        ∀ n' ∈ r'.tickets (nonceNumber .gssapi), clientNonce pid n' ≠ clientNonce pid n := by
  have hreturns := Running.returns hresult
  rw [hprogram, authenticate, hspn] at hreturns
  have hallowed : Allowed (fun _ _ => True) [] r.answers := Allowed.of_forall fun _ _ _ => trivial
  obtain ⟨n, client, token, sent, hn, hnew, hwritten, hnegotiated⟩ :=
    Ensures.returns (handshakeGssapi_ensures new bindings a.username spn) hreturns hallowed rfl
  refine ⟨n, client, token, sent, hnew, hwritten, hnegotiated, ?_⟩
  intro j r' hij hr' n' hn' hnonces
  have hticket : n ∈ r.tickets (nonceNumber .gssapi) :=
    List.mem_filterMap.mpr ⟨⟨.fetchAdd .gssapi, n⟩, hn, rfl⟩
  exact logins_nonces_apart hevents .gssapi hr hr' hij.symm hticket
    (clientNonce_injective hnonces ▸ hn')

/-! ## A login of two legs -/

/-- A library whose contexts send each token back and are established by the second one. -/
def echoGssapi : Gssapi := fun spn _ =>
  .ok (.mk fun token => .continue (.mk fun _ => .done none) token, utf8 spn)

/-- The events of a login of Ann with a ticket, from her nonce to the verdict. -/
def ticketLogin : List LoginEvent :=
  [.dial ⟨"ann", "", some "skaidb/host", false⟩ none, .advance 0 (.receiving []),
    .advance 0 (.receiving []), .advance 0 (.receiving []),
    .advance 0 (.receiving (AuthToken.encode ⟨[1, 2, 3]⟩)), .advance 0 (.receiving []),
    .advance 0 (.receiving (AuthToken.encode ⟨[4]⟩)),
    .advance 0 (.receiving (AuthOutcome.ok zeroDigest).encode)]

/-- Ann logs in with a ticket over a mechanism that echoes: her context has negotiated with the
frames that her login has read. -/
theorem ticketLogin_negotiated : ∃ r ∈ (logins constantPrimitives 7 (some echoGssapi)
    ticketLogin).threads[0]?, ∃ client sent, echoGssapi "skaidb/host" none =
      .ok (client, utf8 "skaidb/host") ∧ Negotiated client.replies (framesRead r.answers) sent := by
  obtain ⟨r, hr, hresult⟩ : ∃ r ∈ (logins constantPrimitives 7 (some echoGssapi)
      ticketLogin).threads[0]?, r.result = some (.ok ()) := by
    decide +kernel
  have hprogram : (logins constantPrimitives 7 (some echoGssapi) ticketLogin).threads[0]?.map
      Running.program = some (authenticate constantPrimitives 7 (some echoGssapi) none
        ⟨"ann", "", some "skaidb/host", false⟩).run := rfl
  rw [hr] at hprogram
  obtain ⟨n, client, token, sent, hnew, -, hnegotiated, -⟩ :=
    logins_negotiated (by decide) hr (Option.some.inj hprogram) rfl hresult
  obtain rfl : utf8 "skaidb/host" = token := congrArg Prod.snd (Except.ok.inj hnew)
  exact ⟨r, hr, client, sent, hnew, hnegotiated⟩

end Skaidb

import Skaidb.Driver.Outcome

/-!
# Runs of a client

A caller uses one client and any number of prepared handles. A run is a sequence of
calls, in any order and with any outcome; the statements about runs are
invariants of the log of exchanges.
-/

namespace Skaidb

open Program Client

variable {σ : Type}

/-- A call on the client. Handles are named by their position. -/
inductive Call where
  | useDatabase (database : String)
  | setScanBudgetRows (rows : UInt64)
  | setConsistency (consistency : Consistency)
  | addEndpoints (more : List String)
  | reconnect
  | execute (sql : String) (consistency : Consistency)
  | pipeline (stmts : List String) (consistency : Consistency)
  | prepare (sql : String)
  | executePrepared (handle : ℕ) (params : List Value) (consistency : Consistency)
  | executeBatch (handle : ℕ) (rows : List (List Value))
  | streamRows (sql : String) (params : List Value) (consistency : Consistency) (rows : ℕ)

/-- A client in use and the handles it has prepared. -/
structure Session (σ : Type) where
  /-- The client and what it talks to. -/
  world : World σ
  /-- The handles, oldest first. -/
  handles : List Prepared

variable (E : Env σ)

/-- The session with the world as the method leaves it, whether the method returns or fails. -/
def Session.after {α : Type} (s : Session σ) (m : Driver σ α) : Session σ :=
  { s with world := (m s.world).2 }

/-- A method on a handle: the handle may have been prepared again. -/
def Session.afterHandle {α : Type} (s : Session σ) (handle : ℕ)
    (m : Prepared → Driver σ (α × Prepared)) : Session σ :=
  match s.handles[handle]? with
  | none => s
  | some stmt =>
    match m stmt s.world with
    | (.ok (_, stmt), w) => ⟨w, s.handles.set handle stmt⟩
    | (.error _, w) => { s with world := w }

/-- The session after a call of one of the methods of the client. -/
def Session.step (s : Session σ) : Call → Session σ
  | .useDatabase database => s.after (Client.useDatabase E database)
  | .setScanBudgetRows rows => s.after (Client.setScanBudgetRows E rows)
  | .setConsistency consistency => s.after (change fun w =>
      { w with client := { w.client with defaultConsistency := consistency } })
  | .addEndpoints more => s.after (change fun w =>
      let endpoints := Client.addEndpoints w.client.endpoints more
      { w with client := { w.client with endpoints := endpoints } })
  | .reconnect => s.after (Client.reconnect E)
  | .execute sql consistency => s.after (executeWith E sql consistency)
  | .pipeline stmts consistency => s.after (pipelineWith E stmts consistency)
  | .prepare sql =>
    match Client.prepare E sql s.world with
    | (.ok stmt, w) => ⟨w, s.handles ++ [stmt]⟩
    | (.error _, w) => { s with world := w }
  | .executePrepared handle params consistency =>
    s.afterHandle handle fun stmt => executePreparedWith E stmt params consistency
  | .executeBatch handle rows => s.afterHandle handle fun stmt => Client.executeBatch E stmt rows
  | .streamRows sql params consistency rows =>
    s.after (Client.streamRows E sql params consistency rows)

/-- A client that has just been opened, by the caller or by a pool. -/
def Env.Opened (w : World σ) : Prop :=
  ∃ pooled ordered eps last env, openFirst E pooled ordered eps last env = .ok w

variable {E}

/-- A client that the caller connects has just been opened. -/
theorem connectMany_opened {endpoints : List String} {env : σ} {w : World σ}
    (h : connectMany E endpoints env = .ok w) : E.Opened w := by
  unfold connectMany at h
  dsimp only at h
  split at h
  · cases h
  · exact ⟨_, _, _, _, _, h⟩

/-- A client that has just been opened has said hello on its first connection. -/
theorem Env.Opened.scene {I : Scene → Prop} {w : World σ}
    (hstart : ∀ client : Client, client.stream = ⟨0, true, []⟩ → client.database = none →
      client.scanBudgetRows = 0 → I ⟨client, 1, [], true⟩)
    (hhello : Returns (On I) (sendHello E) fun _ => On I) (h : E.Opened w) : I w.toScene := by
  obtain ⟨pooled, ordered, eps, last, env, hopen⟩ := h
  induction eps generalizing last env with
  | nil => cases hopen
  | cons ep rest ih =>
    unfold openFirst at hopen
    split at hopen
    · obtain ⟨-, -, hw⟩ := hhello
        ⟨⟨⟨ordered, ep, ⟨0, true, []⟩, .quorum, none, 0, pooled⟩, 1, [], true⟩, _⟩
        (hstart _ rfl rfl rfl)
      exact Except.ok.inj hopen ▸ hw
    · exact ih _ _ hopen

/-- A method on a handle leaves what it leaves for every handle. -/
theorem Session.afterHandle_world {α : Type} {I : World σ → Prop} {s : Session σ} {handle : ℕ}
    {m : Prepared → Driver σ (α × Prepared)} (hs : I s.world)
    (hm : ∀ stmt, s.handles[handle]? = some stmt → I (m stmt s.world).2) :
    I (s.afterHandle handle m).world := by
  unfold Session.afterHandle
  split
  · exact hs
  · rename_i stmt hstmt
    have hw := hm stmt hstmt
    split <;> simp_all

/-- The step that binds a database leaves the world as the method does. -/
theorem Session.step_useDatabase_world (s : Session σ) (database : String) :
    (s.step E (.useDatabase database)).world = (Client.useDatabase E database s.world).2 := by
  rw [Session.step, Session.after]

/-- Preparing a statement leaves what the method leaves, whether there is a handle or not. -/
theorem Session.step_prepare_world (s : Session σ) (sql : String) :
    (s.step E (.prepare sql)).world = (Client.prepare E sql s.world).2 := by
  simp only [Session.step]
  split <;> simp_all

/-- An environment that dials at once and answers from a list, one entry for each
request. -/
def scripted : Env (List (Except IoError (List Frame))) where
  probe _ env := (none, env)
  dial _ env := (.ok (), env)
  dialOrder _ env := ([], env)
  deliver _ _ env :=
    match env with
    | [] => (.ok [], [])
    | answer :: rest => (answer, rest)
  receive _ env := (.ok (), env)
  left _ _ := []
  report _ env := env

/-- An environment in which every server answers a request in the same way. -/
def answering (reply : List UInt8 → List Frame) : Env Unit where
  probe _ env := (none, env)
  dial _ env := (.ok (), env)
  dialOrder _ env := ([], env)
  deliver _ payload env := (.ok (reply payload), env)
  receive _ env := (.ok (), env)
  left _ _ := []
  report _ env := env

/-- A session with a client that reached the single endpoint it was given. -/
def hostSession (E : Env σ) (env : σ) : Session σ :=
  ⟨(sendHello E
    ⟨⟨⟨["host"], "host", ⟨0, true, []⟩, .quorum, none, 0, false⟩, 1, [], true⟩, env⟩).2, []⟩

/-- The client of such a session was connected by its caller. -/
theorem connectMany_answering (reply : List UInt8 → List Frame) :
    connectMany (answering reply) ["host"] () = .ok (hostSession (answering reply) ()).world := rfl

/-- The client of such a session has just been opened. -/
theorem opened_answering (reply : List UInt8 → List Frame) :
    (answering reply).Opened (hostSession (answering reply) ()).world :=
  connectMany_opened (connectMany_answering reply)

/-- A server that answers every payload by a function answers with the value of the function. -/
theorem answers_answering {reply : List UInt8 → List Frame} {payload : List UInt8}
    {answer : List Frame} (h : (answering reply).Answers payload answer) :
    answer = reply payload := by
  obtain ⟨conn, env, env', hdeliver⟩ := h
  exact (Except.ok.inj (Prod.ext_iff.mp hdeliver).1).symm

/-- A server that sends empty streams, gives every prepared statement the identifier zero
and takes every other request for a definition. -/
def politeReply (payload : List UInt8) : List Frame :=
  if opensStream payload then [[5, 0, 0, 0, 0], [7]]
  else if payload.head? = some Op.prepare then [[4, 0, 0, 0, 0, 0, 0]] else [[2]]

/-- The server of the example sends one reply to each request, and a stream as the protocol has
it. -/
theorem politeReply_oneReply : (answering politeReply).OneReply where
  answers payload answer hpayload hanswer := by
    rw [answers_answering hanswer, politeReply, hpayload, if_neg Bool.false_ne_true]
    split <;> decide
  left left hleft := by
    obtain ⟨conn, env, rfl⟩ := hleft
    rfl

end Skaidb

import Skaidb.Driver.Exhausted
import Skaidb.Driver.Framewise
import Skaidb.Driver.Service

/-!
# A client in front of a service

In an environment that hosts a service, a client whose connection is at a boundary writes a
request, reads its reply and is at a boundary again: one round trip is one call. The session
is entered by such calls, on the first connection and on every other one.
-/

namespace Skaidb

open Program Client Codec

variable {σ ς : Type} {E : Env σ} {S : Service ς} {view : σ → ς}

/-! ## What can be sent -/

/-- The request is not refused by the framing and its parameter lists fit their counts. -/
def ClientRequest.Sendable (req : ClientRequest) : Prop :=
  (∀ ps ∈ req.paramLists, ps.length ≤ 65535) ∧ req.encode.length ≤ maxFrameLen

/-- A request that can be sent is decoded from its encoding, with an identifier or without. -/
theorem ClientRequest.Sendable.decode {req : ClientRequest} (h : req.Sendable) :
    decodeClientRequest req.encode = .ok (none, req) ∧
      ∀ id, decodeClientRequest (encodeTaggedRequest id req []) = .ok (some id, req) := by
  obtain ⟨hparams, hlen⟩ := h
  have hdecode : ClientRequest.decode req.encode = .ok req := by
    have hreads := (ClientRequest.read_reads hparams
      (hlen.trans_lt (by unfold maxFrameLen; omega))).parse []
    rwa [List.append_nil] at hreads
  obtain ⟨op, body, hcons, hop⟩ := req.encode_eq_cons
  have hhead : req.encode.head? ≠ some Op.tagged := by
    rw [hcons]
    simpa using hop
  constructor
  · exact decodeClientRequest_plain hhead hdecode
  · intro id
    have hwrapped : encodeTaggedRequest id req [] =
        Op.tagged :: (leBytes 4 id.toNat ++ req.encode) := by
      rw [encodeTaggedRequest, ClientRequest.encodeInto_eq]
      simp
    rw [hwrapped]
    exact decodeClientRequest_tagged id (by simp [hcons]) hhead hdecode

/-- A statement that fits a frame can be sent. -/
theorem FitsQuery.sendable {sql : String} (h : FitsQuery sql)
    (consistency : Consistency) : (ClientRequest.query sql consistency).Sendable := by
  constructor
  · simp [ClientRequest.paramLists]
  · rw [ClientRequest.length_encode, ClientRequest.wireLen]
    unfold FitsQuery at h
    omega

/-- What the call sends fits a frame, its lists fit their counts, and a batch fits its
identifiers. -/
def Call.Sendable : Call → Prop
  | .useDatabase database => FitsQuery (useSql database)
  | .execute sql _ => FitsQuery sql
  | .pipeline stmts _ => stmts.length < 2 ^ 32 ∧ ∀ sql ∈ stmts, FitsTagged sql
  | .prepare sql => (ClientRequest.prepare sql).Sendable
  | .executePrepared _ params consistency =>
    ∀ id, (ClientRequest.execute id params consistency).Sendable
  | .executeBatch _ rows =>
    ∀ id consistency, (ClientRequest.executeBatch id rows consistency).Sendable
  | .streamRows sql params consistency _ =>
    (ClientRequest.queryStream sql params consistency).Sendable
  | _ => True

/-! ## At a boundary -/

/-- The client can go on: nothing is left on its connection, it knows an endpoint, and its
session database can be entered again. -/
structure CanGoOn (w : World σ) : Prop where
  /-- The live connection works and has no unread frame. -/
  waiting : On (Waiting w.stream.id []) w
  /-- There is an endpoint to dial. -/
  endpoints : w.client.endpoints ≠ []
  /-- The statement that enters the session's database fits a frame. -/
  bound : w.client.UseFits

variable (view) in
/-- What reading leaves alone: what is seen of the world and that the client knows an
endpoint. -/
def Bears (d : Desk ς) (w : World σ) : Prop :=
  w.desk view = d ∧ w.client.endpoints ≠ []

/-- A world that bears what another one does is ready when nothing is left on its connection. -/
theorem Bears.ready {d : Desk ς} {w : World σ} (h : Bears view d w)
    (hbound : ∀ db, d.database = some db → FitsQuery (useSql db))
    (hwaiting : On (Waiting d.conn []) w) : CanGoOn w := by
  obtain ⟨rfl, hendpoints⟩ := h
  exact ⟨hwaiting, hendpoints, hbound⟩

/-- What is seen of a world whose environment looks the same. -/
theorem desk_env {w : World σ} {env : σ} (h : view env = view w.env) :
    World.desk view ⟨w.toScene, env⟩ = w.desk view := by
  unfold World.desk
  rw [h]

section Hosted

variable (hE : Hosts E S view)

include hE

/-- Reports and frames that are read leave what is seen alone. -/
theorem bears_framewise (d : Desk ς) : Framewise E (Bears view d) fun _ => False where
  writeFrame hp := hp.elim
  readFrame := by
    rintro w ⟨hdesk, hendpoints⟩
    have hreceive := (hE.receive w.stream.id w.env).2
    unfold World.readFrame
    rcases hrun : E.receive w.stream.id w.env with ⟨e | u, env⟩
    · rw [hrun] at hreceive
      exact ⟨(desk_env hreceive).trans hdesk, hendpoints⟩
    · rw [hrun] at hreceive
      cases hinbox : w.stream.inbox with
      | nil => exact ⟨(desk_env hreceive).trans hdesk, hendpoints⟩
      | cons frame rest =>
        dsimp only
        split <;> exact ⟨(desk_env hreceive).trans hdesk, hendpoints⟩
  report r := by
    rintro w ⟨hdesk, hendpoints⟩
    change Bears view d (if w.client.pooled then { w with env := E.report r w.env } else w)
    by_cases hpooled : w.client.pooled = true
    · rw [if_pos hpooled]
      exact ⟨(desk_env (hE.report r w.env)).trans hdesk, hendpoints⟩
    · rw [if_neg hpooled]
      exact ⟨hdesk, hendpoints⟩
  enter := Keeps.change fun _ hw => hw

/-- A request that can be sent is written, and the frames of its answer wait. -/
theorem writeFrame_hosted (purpose : Purpose) (sent : Sent) {tag : Option UInt32}
    {req : ClientRequest} {w : World σ} {frames : List Frame}
    (hlen : sent.payload.length ≤ maxFrameLen)
    (hdecode : decodeClientRequest sent.payload = .ok (tag, req))
    (hw : On (Waiting w.stream.id frames) w) (hendpoints : w.client.endpoints ≠ []) :
    ∃ w', World.writeFrame E purpose sent w = (.ok (.ok ()), w') ∧
      Bears view { w.desk view with
        service := (S.frames w.stream.id tag req (view w.env)).2 } w' ∧
      On (Waiting w.stream.id (frames ++ (S.frames w.stream.id tag req (view w.env)).1)) w' := by
  obtain ⟨bytes, hbytes⟩ := (writeFrame_eq_ok_iff _).mpr hlen
  obtain ⟨hanswer, hview⟩ := hE.deliver w.stream.id _ _ _ w.env hdecode
  obtain ⟨-, hinbox, hfits⟩ := hw
  unfold World.writeFrame
  rw [hbytes]
  dsimp only
  rcases hdeliver : E.deliver w.stream.id sent.payload w.env with ⟨r, env⟩
  rw [hdeliver] at hanswer hview
  obtain rfl : r = _ := hanswer
  refine ⟨_, rfl, ⟨?_, hendpoints⟩, rfl, ?_, ?_⟩
  · unfold World.desk
    dsimp only at hview
    rw [hview]
    rfl
  · change w.stream.inbox ++ _ = _
    rw [hinbox]
  · exact List.forall_mem_append.mpr ⟨hfits, S.frames_fit _ _ _ _⟩

/-! ## One reply -/

omit hE in
/-- A step that leaves alone what is seen and what waits. -/
theorem silent {α : Type} {m : Driver σ α} {v : α} (hkeeps : ∀ d, Keeps (Bears view d) m)
    (hreturns : ∀ conn, Returns (On (Waiting conn [])) m fun a w =>
      On (Waiting conn []) w ∧ a = v) (w : World σ) (hw : CanGoOn w) :
    ∃ w', m w = (.ok v, w') ∧ w'.desk view = w.desk view ∧ CanGoOn w' := by
  obtain ⟨a, hrun, hwaiting, rfl⟩ := hreturns w.stream.id w hw.waiting
  have hbears := hkeeps (w.desk view) w ⟨rfl, hw.endpoints⟩
  exact ⟨(m w).2, Prod.ext hrun rfl, hbears.1, hbears.ready hw.bound hwaiting⟩

/-- Telling the pool about a connection does not change what the desk shows of the session. -/
theorem report_silent (r : Report) (w : World σ) (hw : CanGoOn w) :
    ∃ w', report E r w = (.ok (), w') ∧ w'.desk view = w.desk view ∧ CanGoOn w' := by
  apply silent (fun d => (bears_framewise hE d).report r) _ w hw
  intro conn
  exact (report_returns _ r).conseq (fun _ h => h) fun _ _ ⟨a, ha, h⟩ => ⟨a, ha, h, rfl⟩

/-- Telling the pool that a statement succeeded does not change what the desk shows of the
session. -/
theorem observeStatement_silent (sql : String) (w : World σ) (hw : CanGoOn w) :
    ∃ w', observeStatement E sql w = (.ok (), w') ∧ w'.desk view = w.desk view ∧ CanGoOn w' :=
  report_silent hE _ w hw

/-- Passing on a frame that arrived tells the pool of it and leaves the caller's desk as it was. -/
theorem observed_silent (frame : Frame) (w : World σ) (hw : CanGoOn w) :
    ∃ w', observed E (.ok frame : Except IoError Frame) w = (.ok frame, w') ∧
      w'.desk view = w.desk view ∧ CanGoOn w' := by
  obtain ⟨w', hrun, hdesk, hready⟩ := report_silent hE (.roundTrip w.client.connected) w hw
  refine ⟨w', ?_, hdesk, hready⟩
  change (report E (.roundTrip w.client.connected) >>= fun _ => pure frame) w = _
  rw [bind_apply, hrun]
  rfl

omit hE in
/-- A request that is not streamed is answered with one frame. -/
theorem frames_of_single {req : ClientRequest}
    (hreq : ∀ sql params consistency, req ≠ .queryStream sql params consistency) (conn : ℕ)
    (s : ς) :
    S.frames conn none req s = ([(S.serve conn req s).1.encode], (S.serve conn req s).2) := by
  cases req with
  | queryStream sql params consistency => exact absurd rfl (hreq sql params consistency)
  | _ => rfl

/-- A frame is written and the frame that answers it is read. -/
theorem exchange_hosted (purpose : Purpose) (sent : Sent) {req : ClientRequest}
    (hlen : sent.payload.length ≤ maxFrameLen)
    (hdecode : decodeClientRequest sent.payload = .ok (none, req))
    (hreq : ∀ sql params consistency, req ≠ .queryStream sql params consistency) {w : World σ}
    (hw : CanGoOn w) :
    ∃ w₁ w₂, World.writeFrame E purpose sent w = (.ok (.ok ()), w₁) ∧
      World.readFrame E w₁ = (.ok (.ok (S.serve w.stream.id req (view w.env)).1.encode), w₂) ∧
      w₂.desk view = { w.desk view with
        service := (S.serve w.stream.id req (view w.env)).2 } ∧ CanGoOn w₂ := by
  obtain ⟨w₁, hwrite, hbears, hwaiting⟩ := writeFrame_hosted hE purpose sent hlen hdecode
    hw.waiting hw.endpoints
  rw [frames_of_single hreq] at hbears hwaiting
  obtain ⟨read, hread, hrest, rfl⟩ :=
    readFrame_waiting (fun env => (hE.receive _ env).1) _ [] w₁ hwaiting
  have hkept := (bears_framewise hE _).readFrame w₁ hbears
  exact ⟨w₁, (World.readFrame E w₁).2, hwrite, Prod.ext hread rfl, hkept.1,
    hkept.ready hw.bound hrest⟩

omit hE in
/-- What a reply that can be sent means for the caller. -/
theorem interpret_encode {response : Response} (h : response.Fits) :
    interpret response.encode = Service.judge response := by
  rw [interpret, Response.decode_encode h]
  cases response <;> rfl

/-- One request and its reply are one call of the service, when the request fits a frame and opens
no stream. -/
theorem ask_hosted (purpose : Purpose) (sent : Sent) {req : ClientRequest}
    (hlen : sent.payload.length ≤ maxFrameLen)
    (hdecode : decodeClientRequest sent.payload = .ok (none, req))
    (hreq : ∀ sql params consistency, req ≠ .queryStream sql params consistency) :
    Simulates CanGoOn (World.desk view) (ask E purpose sent) (S.call req) := by
  intro w hw
  obtain ⟨w₁, w₂, hwrite, hread, hdesk, hready⟩ := exchange_hosted hE purpose sent hlen
    hdecode hreq hw
  obtain ⟨w₃, hobserved, hdesk₂, hready₂⟩ := observed_silent hE _ w₂ hready
  have hrun : ask E purpose sent w =
      (Service.judge (S.serve w.stream.id req (view w.env)).1, w₃) := by
    rw [ask, bind_apply, exchangeFrames, bind_apply, hwrite]
    dsimp only
    rw [hread]
    dsimp only
    rw [bind_apply, hobserved]
    dsimp only
    rw [interpret_encode (S.serve_fits _ _ _).fits]
    rfl
  rw [hrun]
  refine ⟨rfl, ?_, hready₂⟩
  rw [hdesk₂, hdesk]
  rfl

/-- A round trip is a call of the service. -/
theorem roundtrip_hosted (purpose : Purpose) {req : ClientRequest} (h : req.Sendable)
    (hreq : ∀ sql params consistency, req ≠ .queryStream sql params consistency) :
    Simulates CanGoOn (World.desk view) (roundtrip E purpose req) (S.call req) :=
  ask_hosted hE purpose (.client req) h.2 h.decode.1 hreq

/-! ## The session -/

/-- A session statement is a call of the service. -/
theorem query_hosted {purpose : Purpose} {sql : String} (h : FitsQuery sql)
    (consistency : Consistency) :
    Simulates CanGoOn (World.desk view) (roundtrip E purpose (.query sql consistency))
      (S.call (.query sql consistency)) :=
  roundtrip_hosted hE _ (h.sendable consistency) fun _ _ _ => ClientRequest.noConfusion

/-- `applyDatabase` does over the network what the desk does to enter the session database. -/
theorem applyDatabase_hosted (purpose : Purpose) :
    Simulates CanGoOn (World.desk view) (applyDatabase E purpose) S.enterDatabase := by
  refine Simulates.reads_bind fun w hw => ?_
  have hdesk : (id (w.desk view)).database = w.client.database := rfl
  rw [hdesk]
  cases hdb : w.client.database with
  | none => exact Simulates.pure ()
  | some db => exact (query_hosted hE (hw.bound db hdb) _).bind fun _ => Simulates.pure ()

/-- `applyScanBudget` does over the network what the desk does to set the scan budget. -/
theorem applyScanBudget_hosted (purpose : Purpose) :
    Simulates CanGoOn (World.desk view) (applyScanBudget E purpose) S.enterScanBudget := by
  refine Simulates.reads_bind fun w hw => ?_
  have hdesk : (id (w.desk view)).scanBudgetRows = w.client.scanBudgetRows := rfl
  rw [hdesk]
  by_cases hzero : w.client.scanBudgetRows = 0
  · rw [if_pos hzero, if_pos hzero]
    exact Simulates.pure ()
  · rw [if_neg hzero, if_neg hzero]
    exact (query_hosted hE (fitsQuery_budgetSql _) _).bind fun _ => Simulates.pure ()

/-- A session database is bound, or the previous one stays. -/
theorem useDatabase_hosted {database : String} (h : FitsQuery (useSql database)) :
    Simulates CanGoOn (World.desk view) (Client.useDatabase E database)
      (S.useDatabase database) := by
  have hchange (db : Option String) (hdb : ∀ name, db = some name → FitsQuery (useSql name)) :
      Simulates CanGoOn (World.desk view) (setDatabase db) (Service.bindDatabase db) :=
    Simulates.change (fun _ => rfl) fun w hw => ⟨hw.waiting.of_stream rfl, hw.endpoints, hdb⟩
  refine Simulates.reads_bind fun w hw => ?_
  have hbind := hchange (some database) fun name hname => Option.some.inj hname ▸ h
  refine hbind.bind fun _ => (applyDatabase_hosted hE .bind).attempt.bind fun r => ?_
  cases r with
  | ok u => exact Simulates.pure ()
  | error e => exact (hchange _ hw.bound).bind fun _ => Simulates.fails e

/-- Setting the scan budget on a hosted client is setting it at the service. -/
theorem setScanBudgetRows_hosted (rows : UInt64) :
    Simulates CanGoOn (World.desk view) (Client.setScanBudgetRows E rows)
      (S.setScanBudgetRows rows) := by
  refine Simulates.reads_bind fun w hw => ?_
  have hfits : FitsQuery (if rows = 0 then "SET SCAN BUDGET DEFAULT" else budgetSql rows) := by
    by_cases hzero : rows = 0
    · rw [if_pos hzero]
      unfold FitsQuery
      decide
    · rw [if_neg hzero]
      exact fitsQuery_budgetSql rows
  refine (query_hosted hE hfits _).bind fun _ => ?_
  exact Simulates.change (fun _ => rfl) fun w hw =>
    ⟨hw.waiting.of_stream rfl, hw.endpoints, hw.bound⟩

/-! ## A new connection -/

/-- Hello is said; what the service says is not looked at. -/
theorem sendHello_hosted (w : World σ) (hw : CanGoOn w) :
    ∃ w', sendHello E w = (.ok (), w') ∧
      w'.desk view = (S.respond helloRequest (w.desk view)).2 ∧ CanGoOn w' := by
  have hsend : helloRequest.Sendable := by
    constructor
    · exact fun ps hps => absurd hps List.not_mem_nil
    · rw [ClientRequest.length_encode]
      decide
  obtain ⟨w₁, w₂, hwrite, hread, hdesk, hready⟩ := exchange_hosted hE .hello
    (.client helloRequest) hsend.2 hsend.decode.1
    (fun _ _ _ => ClientRequest.noConfusion) hw
  refine ⟨w₂, ?_, hdesk, hready⟩
  rw [sendHello, bind_apply, hwrite]
  dsimp only
  rw [bind_apply, hread]
  rfl

/-- `replaySession` says hello and enters the session again, as the desk does in three requests. -/
theorem replaySession_hosted :
    Simulates CanGoOn (World.desk view) (replaySession E) (do
      let _ ← S.respond helloRequest
      S.enterDatabase
      S.enterScanBudget) := by
  intro w hw
  obtain ⟨w₁, hhello, hdesk, hready⟩ := sendHello_hosted hE w hw
  have hbudget : Simulates CanGoOn (World.desk view)
      (applyScanBudget E .rebind >>= fun _ => markEntered) S.enterScanBudget :=
    (applyScanBudget_hosted hE .rebind).followed fun u w hw =>
      ⟨_, rfl, rfl, hw.waiting.of_stream rfl, hw.endpoints, hw.bound⟩
  have hrest := ((applyDatabase_hosted hE .rebind).bind fun _ => hbudget) w₁ hready
  rw [replaySession, bind_apply, hhello]
  rw [hdesk] at hrest
  exact hrest

/-- Probing changes nothing that is seen and forgets no endpoint. -/
theorem probeAll_hosted (eps : List String) (env : σ) :
    (probeAll E eps env).1.length = eps.length ∧ view (probeAll E eps env).2 = view env := by
  induction eps generalizing env with
  | nil => exact ⟨rfl, rfl⟩
  | cons ep eps ih =>
    obtain ⟨hlength, hview⟩ := ih (E.probe ep env).2
    simp only [probeAll, List.length_cons, hlength, true_and]
    exact hview.trans (hE.probe ep env)

/-- A hosted client that can go on has an order of endpoints to dial, without a failure. -/
theorem redialOrder_hosted (w : World σ) (hw : CanGoOn w) :
    ∃ ordered env, redialOrder E w = (.ok ordered, { w with env := env }) ∧ ordered ≠ [] ∧
      view env = view w.env := by
  unfold redialOrder
  by_cases hpooled : w.client.pooled = true
  · rw [if_pos hpooled]
    exact ⟨_, _, rfl, hE.dialOrder _ _⟩
  · rw [if_neg hpooled]
    obtain ⟨hlength, hview⟩ := probeAll_hosted hE w.client.endpoints w.env
    have hpos := List.length_pos_iff.mpr hw.endpoints
    have horder : (orderByLatency E w.client.endpoints w.env).1 ≠ [] ∧
        view (orderByLatency E w.client.endpoints w.env).2 = view w.env := by
      unfold orderByLatency
      split
      · exact ⟨hw.endpoints, rfl⟩
      · refine ⟨List.length_pos_iff.mp ?_, hview⟩
        rw [List.length_map, List.length_insertionSort, hlength]
        exact hpos
    refine ⟨_, _, rfl, List.length_pos_iff.mp ?_, horder.2⟩
    rw [List.length_insertionSort]
    exact List.length_pos_iff.mpr horder.1

/-- `reconnect` reaches the first endpoint, which accepts in a hosted environment, and enters the
session there. -/
theorem reconnect_hosted :
    Simulates CanGoOn (World.desk view) (Client.reconnect E) S.reconnect := by
  intro w hw
  obtain ⟨ordered, env, horder, hne, hview⟩ := redialOrder_hosted hE w hw
  obtain ⟨ep, rest, rfl⟩ := List.exists_cons_of_ne_nil hne
  obtain ⟨hdial, hdialed⟩ := hE.dial ep env
  rcases hrun : E.dial ep env with ⟨r, env'⟩
  rw [hrun] at hdial hdialed
  obtain rfl : r = .ok () := hdial
  -- The world in which the new connection is the live one.
  have hinstalled : CanGoOn (⟨w.toScene.install ep (ep :: rest), env'⟩ : World σ) :=
    ⟨⟨rfl, rfl, by simp⟩, List.cons_ne_nil _ _, hw.bound⟩
  have hdesk : World.desk view ⟨w.toScene.install ep (ep :: rest), env'⟩ =
      { w.desk view with conn := w.opened, opened := w.opened + 1 } := by
    unfold World.desk
    rw [hdialed, hview]
    rfl
  obtain ⟨w₁, hreport, hdesk₁, hready⟩ := report_silent hE (.moved ep) _ hinstalled
  have hreplay := replaySession_hosted hE w₁ hready
  rw [hdesk₁, hdesk] at hreplay
  have hreconnect : Client.reconnect E w = replaySession E w₁ := by
    rw [Client.reconnect, bind_apply, horder]
    dsimp only
    rw [redial, bind_apply]
    simp only [dial, hrun]
    rw [bind_apply]
    simp only [Client.install, change]
    rw [bind_apply, hreport]
  rw [hreconnect]
  exact hreplay

end Hosted

end Skaidb

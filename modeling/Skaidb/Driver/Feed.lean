import Skaidb.Codec.Numeral
import Skaidb.Data.Paging
import Skaidb.Driver.Alignment
import Skaidb.Driver.Lasting
import Skaidb.Proto.ResponseCodec

/-!
# Change feeds

A stream is an ordinary table that logs changes, and the driver polls it by pages: it asks for
the events above the last identifier it was given. The server is known here by what a statement
of this shape means to it. It may append at any time, its answer may get lost, and the statement
may be sent again on another connection. The batches of the polls that return
still make up the log, event by event and in order.
-/

namespace Skaidb

open Program Client Codec

variable {σ : Type} (E : Env σ)

namespace Client

/-! ## Polling -/

/-- A text with its single quotes doubled, as it stands between quotes in a poll's statement. -/
def quoteLiteral (text : String) : String := String.ofList (doubled '\'' text.toList)

/-- The statement of a poll: the events behind a position, all of them at the start. -/
def pollSql (stream after : String) (limit : ℕ) : String :=
  let log := "_stream_" ++ stream
  if after = "" then
    "SELECT id, op, k, ts, doc FROM " ++ log ++ " ORDER BY id LIMIT " ++ toString limit
  else
    "SELECT id, op, k, ts, doc FROM " ++ log ++ " WHERE id > '" ++ quoteLiteral after ++
      "' ORDER BY id LIMIT " ++ toString limit

/-- `execute`: a statement at the client's default consistency, tried again once after a re-dial. -/
def execute (sql : String) : Driver σ Response := do
  let consistency ← reads fun w => w.client.defaultConsistency
  executeWith E sql consistency

/-- The events of a reply; one without rows has none. -/
def batchOf : Response → List (List Value)
  | .rows _ rows => rows
  | _ => []

/-- The position to pass next time: the identifier of the last event, if there is one. -/
def nextPosition (after : String) (rows : List (List Value)) : String :=
  match rows.getLast?.bind List.head? with
  | some ⟨.string s, _⟩ => s
  | _ => after

/-- Poll the log of a stream once: the events after a position, oldest first, and the position
to pass next time. -/
def streamPoll (stream after : String) (limit : ℕ) : Driver σ (List (List Value) × String) := do
  let resp ← execute E (pollSql stream after limit)
  let rows := batchOf resp
  pure (rows, nextPosition after rows)

end Client

/-! ## What the statement asks for -/

/-- The end of a poll's statement read back: its ordering and the number of events that it asks
for. -/
def readLimit (text : List Char) : Option ℕ := do
  let digits ← text.dropPrefix? " ORDER BY id LIMIT ".toList
  readDigits digits

/-- Read the statement of a poll of the stream: the identifier to start above, if there is one,
and the greatest number of events. -/
def readPoll (stream sql : String) : Option (Option String × ℕ) := do
  let text ← sql.toList.dropPrefix?
    ("SELECT id, op, k, ts, doc FROM " ++ ("_stream_" ++ stream)).toList
  match text.dropPrefix? " WHERE id > '".toList with
  | none => do
    let limit ← readLimit text
    some (none, limit)
  | some text => do
    let (literal, text) ← readQuoted '\'' text
    let limit ← readLimit text
    some (some (String.ofList literal), limit)

/-- A text is taken off in front of another. -/
theorem dropPrefix_append (front back : List Char) :
    (front ++ back).dropPrefix? front = some back :=
  List.dropPrefix?_append_of_beq back (BEq.refl front)

/-- The end of a poll's statement is read back. -/
theorem readLimit_toString (limit : ℕ) :
    readLimit (" ORDER BY id LIMIT ".toList ++ (toString limit).toList) = some limit := by
  have hdigits : (toString limit).toList = Nat.toDigits 10 limit := by
    simp [Nat.repr]
  have hread : readDigits (Nat.toDigits 10 limit) = some limit := by
    rw [readDigits_of_isDigits Nat.toDigits_ne_nil (isDigits_toDigits limit),
      digitsValue_toDigits]
  rw [readLimit, dropPrefix_append, hdigits]
  exact hread

/-- The statement of the first poll has no condition. -/
theorem toList_pollSql_start (stream : String) (limit : ℕ) :
    (pollSql stream "" limit).toList =
      ("SELECT id, op, k, ts, doc FROM " ++ ("_stream_" ++ stream)).toList ++
        (" ORDER BY id LIMIT ".toList ++ (toString limit).toList) := by
  rw [pollSql, if_pos rfl]
  simp only [String.toList_append, List.append_assoc]

/-- The statement of a later poll quotes the position. -/
theorem toList_pollSql_after (stream : String) {after : String} (hafter : after ≠ "") (limit : ℕ) :
    (pollSql stream after limit).toList =
      ("SELECT id, op, k, ts, doc FROM " ++ ("_stream_" ++ stream)).toList ++
        (" WHERE id > '".toList ++ (doubled '\'' after.toList ++
          '\'' :: (" ORDER BY id LIMIT ".toList ++ (toString limit).toList))) := by
  have hquote : "' ORDER BY id LIMIT ".toList = '\'' :: " ORDER BY id LIMIT ".toList := rfl
  rw [pollSql, if_neg hafter]
  simp only [String.toList_append, List.append_assoc, quoteLiteral, String.toList_ofList, hquote,
    List.cons_append]

/-- The statement of a poll asks for the events above the position, whatever quotes are in
it, and for all of them at the start. -/
theorem readPoll_pollSql (stream after : String) (limit : ℕ) :
    readPoll stream (pollSql stream after limit) =
      some (if after = "" then none else some after, limit) := by
  have hlimit := readLimit_toString limit
  unfold readPoll
  by_cases hafter : after = ""
  · have hwhere : (" ORDER BY id LIMIT ".toList ++ (toString limit).toList).dropPrefix?
        " WHERE id > '".toList = none := rfl
    rw [hafter, toList_pollSql_start, dropPrefix_append, if_pos rfl]
    simp only [Option.bind_eq_bind, Option.bind_some, hwhere, hlimit]
  · have horder : " ORDER BY id LIMIT ".toList = ' ' :: "ORDER BY id LIMIT ".toList := rfl
    rw [toList_pollSql_after stream hafter, dropPrefix_append, if_neg hafter]
    simp only [Option.bind_eq_bind, Option.bind_some, dropPrefix_append]
    rw [horder, List.cons_append, readQuoted_doubled (by simp), ← List.cons_append, ← horder]
    simp only [Option.bind_some, hlimit, String.ofList_toList]

/-! ## The server -/

/-- An event of the log that a stream table reads: its identifier, and the cells of its row. -/
structure Event where
  /-- The identifier of the event, by which the log is ordered. -/
  id : String
  /-- The identifier has a character. -/
  nonempty : id ≠ ""
  /-- The cells of its row after the identifier. -/
  cells : List Value

/-- The row that a poll returns for an event, which begins with its identifier. -/
def Event.row (e : Event) : List Value := Value.string e.id :: e.cells

/-- The position behind events, as the driver keeps it. -/
def positionAfter (events : List Event) : String := (Paging.position Event.id events).getD ""

/-- The position that a poll starts above is that of the last event given so far, if there is
one. -/
theorem above_positionAfter (events : List Event) :
    (if positionAfter events = "" then none else some (positionAfter events)) =
      Paging.position Event.id events := by
  unfold positionAfter Paging.position
  cases events.getLast? with
  | none => rfl
  | some last => exact if_neg last.nonempty

/-- The position to pass next time is the one behind all events. -/
theorem nextPosition_positionAfter (events batch : List Event) :
    nextPosition (positionAfter events) (batch.map Event.row) =
      positionAfter (events ++ batch) := by
  have hlast : nextPosition (positionAfter events) (batch.map Event.row) =
      (Paging.position Event.id batch).getD (positionAfter events) := by
    unfold nextPosition Paging.position
    rw [List.getLast?_map]
    cases batch.getLast? <;> rfl
  rw [hlast, positionAfter, positionAfter, Paging.position_append]
  cases Paging.position Event.id batch <;> rfl

section Server

variable {E} (lt : String → String → Prop) [DecidableRel lt] (log : σ → List Event)

/-- The reply has the first events, at most as many as asked for, above the identifier. They are
taken from a log that had grown from the given one and has grown since. -/
def Answered (above : Option String) (limit : ℕ) (given : List Event) (resp : Response) (env : σ) :
    Prop :=
  ∃ seen columns, given <+: seen ∧ seen <+: log env ∧
    resp = .rows columns ((Paging.page Event.id lt above limit seen).map Event.row)

/-- The frames are replies to the poll, or make the client fail. -/
def Replies (above : Option String) (limit : ℕ) (given : List Event) (frames : List Frame)
    (env : σ) : Prop :=
  ∀ frame ∈ frames, ∀ resp, interpret frame = .ok resp →
    Answered lt log above limit given resp env

/-- The log of the world has grown from the given one. -/
def Grown (given : List Event) (w : World σ) : Prop := given <+: log w.env

/-- The client is at a boundary, and the log has grown from the given one. -/
def Ready (given : List Event) (w : World σ) : Prop := On Idle w ∧ Grown log given w

/-- If there is a reply, it is an answer to the poll. -/
def Settled (above : Option String) (limit : ℕ) (given : List Event) :
    Except DriverError Response → σ → Prop
  | .ok resp, env => Answered lt log above limit given resp env
  | .error _, _ => True

/-- The servers keep a log of the stream. Identifiers ascend and entries are appended at any
time. A poll is answered with its page of the log or with an error. -/
structure Feeds (E : Env σ) (stream : String) : Prop where
  /-- A request is answered once. -/
  oneReply : E.OneReply
  /-- No identifier is above itself. -/
  irrefl : ∀ id, ¬ lt id id
  /-- The order of identifiers is transitive. -/
  trans : ∀ {a b c}, lt a b → lt b c → lt a c
  /-- The identifiers of the log ascend. -/
  ascends : ∀ env, Paging.Ascends Event.id lt (log env)
  /-- Whatever happens, the log is only appended to. -/
  appends : ∀ given, Lasting E fun env => given <+: log env
  /-- A poll is answered with its page. -/
  select : ∀ {conn : ℕ} {req : Request} {above : Option String} {limit : ℕ} {env env' : σ}
    {answer : List Frame}, req.encode.length ≤ maxFrameLen →
    readPoll stream req.sql = some (above, limit) →
    E.deliver conn req.encode env = (.ok answer, env') → ∀ frame ∈ answer,
      (∃ msg, Response.decode frame = .ok (.error msg)) ∨
      ∃ resp, Response.decode frame = .ok resp ∧ Answered lt log above limit (log env) resp env'

variable {lt log} {stream : String}

/-- An answer to a poll stays one when the log grows, since the log it was taken from is still the
beginning. -/
theorem Answered.mono {above : Option String} {limit : ℕ} {given : List Event} {resp : Response}
    {env env' : σ} (hanswered : Answered lt log above limit given resp env)
    (hgrown : log env <+: log env') : Answered lt log above limit given resp env' := by
  obtain ⟨seen, columns, hgiven, hseen, hresp⟩ := hanswered
  exact ⟨seen, columns, hgiven, hseen.trans hgrown, hresp⟩

/-- A request that is written at a boundary, and whose answer arrives, gets its reply. -/
theorem ask_of_answered (purpose : Purpose) {sent : Sent} {w : World σ} (hidle : On Idle w)
    (hfits : sent.payload.length ≤ maxFrameLen) {frame : Frame}
    (hframe : frame.length ≤ maxFrameLen) {env₁ env₂ : σ}
    (hdeliver : E.deliver w.stream.id sent.payload w.env = (.ok [frame], env₁))
    (hreceive : E.receive w.stream.id env₁ = (.ok (), env₂)) {resp : Response}
    (hresp : interpret frame = .ok resp) : ∃ w', ask E purpose sent w = (.ok resp, w') := by
  have hinbox : w.stream.inbox = [] := hidle.aligned
  have hwrite : World.writeFrame E purpose sent w =
      (.ok (.ok ()), ⟨w.toScene.send purpose sent [frame], env₁⟩) := by
    rw [World.writeFrame, Skaidb.writeFrame, if_neg (not_lt.mpr hfits)]
    simp only [hdeliver]
  obtain ⟨w₁, hread⟩ : ∃ w₁, World.readFrame E ⟨w.toScene.send purpose sent [frame], env₁⟩ =
      (.ok (.ok frame), w₁) := by
    refine ⟨⟨(w.toScene.send purpose sent [frame]).leave [], env₂⟩, ?_⟩
    simp only [World.readFrame, Scene.send, Scene.setStream, Scene.stream, hreceive, hinbox,
      List.nil_append, if_pos hframe]
  have hobserved : observed E (.ok frame) w₁ = (.ok frame, (observed E (.ok frame) w₁).2) :=
    Prod.ext (observed_fst _ w₁) rfl
  refine ⟨(observed E (.ok frame) w₁).2, ?_⟩
  rw [ask, bind_apply, exchangeFrames, bind_apply, hwrite]
  dsimp only
  rw [hread]
  dsimp only
  rw [bind_apply, hobserved]
  dsimp only
  rw [hresp]
  rfl

/-- A statement whose first attempt returns is not sent again. -/
theorem executeWith_of_tryExecute {sql : String} {consistency : Consistency} {w w' : World σ}
    {resp : Response} (htry : tryExecute E sql consistency w = (.ok resp, w')) :
    ∃ w'', executeWith E sql consistency w = (.ok resp, w'') := by
  refine ⟨(observeStatement E sql w').2, ?_⟩
  rw [Client.executeWith, bind_apply, orRetry, bind_apply, attempt, htry]
  rfl

/-- A poll that is written, and whose answer of rows arrives, returns these rows. -/
theorem streamPoll_of_answered {after : String} {limit : ℕ} {w : World σ} {sent : Sent}
    (hsent : sent = .request ⟨pollSql stream after limit, w.client.defaultConsistency⟩)
    (hidle : On Idle w) (hfits : sent.payload.length ≤ maxFrameLen)
    {frame : Frame} (hframe : frame.length ≤ maxFrameLen) {env₁ env₂ : σ}
    (hdeliver : E.deliver w.stream.id sent.payload w.env = (.ok [frame], env₁))
    (hreceive : E.receive w.stream.id env₁ = (.ok (), env₂)) {columns : List String}
    {rows : List (List Value)} (hdecode : Response.decode frame = .ok (.rows columns rows)) :
    ∃ w', Client.streamPoll E stream after limit w = (.ok (rows, nextPosition after rows), w') := by
  have hresp : interpret frame = .ok (.rows columns rows) := by rw [interpret, hdecode]
  obtain ⟨w₁, htry⟩ := ask_of_answered .statement hidle hfits hframe hdeliver hreceive hresp
  rw [hsent] at htry
  obtain ⟨w₂, hexecute⟩ := executeWith_of_tryExecute htry
  refine ⟨w₂, ?_⟩
  rw [Client.streamPoll, bind_apply, execute, bind_apply, reads]
  dsimp only
  rw [hexecute]
  rfl

variable (h : Feeds lt log E stream)
include h

/-- What a longer log keeps is kept by everything outside the driver. -/
theorem Feeds.lasting {J : σ → Prop} (hJ : ∀ env env', log env <+: log env' → J env → J env') :
    Lasting E J where
  probe ep env := hJ _ _ ((h.appends _).probe ep env List.prefix_rfl)
  dial ep env := hJ _ _ ((h.appends _).dial ep env List.prefix_rfl)
  dialOrder lost env := hJ _ _ ((h.appends _).dialOrder lost env List.prefix_rfl)
  deliver conn payload env := hJ _ _ ((h.appends _).deliver conn payload env List.prefix_rfl)
  receive conn env := hJ _ _ ((h.appends _).receive conn env List.prefix_rfl)
  report r env := hJ _ _ ((h.appends _).report r env List.prefix_rfl)

/-! ## One attempt -/

section Attempt

variable {sql : String} {above : Option String} {limit : ℕ}
  (hread : readPoll stream sql = some (above, limit)) (given : List Event)

include hread

/-- Once the poll is written, the frame in its inbox answers it from the log as it was or has
grown. -/
theorem Feeds.writeFrame (consistency : Consistency) :
    Returns (Ready log given)
      (World.writeFrame E .statement (.request ⟨sql, consistency⟩)) fun r w => Grown log given w ∧
        (r = .ok () → Replies lt log above limit given w.stream.inbox w.env) := by
  rintro w ⟨hidle, hgiven⟩
  unfold World.writeFrame Skaidb.writeFrame
  by_cases hlong : (Sent.request ⟨sql, consistency⟩).payload.length > maxFrameLen
  · rw [if_pos hlong]
    exact ⟨_, rfl, hgiven, fun hok => by cases hok⟩
  · rw [if_neg hlong]
    have hgrown := (h.appends given).deliver w.stream.id
      (Sent.request ⟨sql, consistency⟩).payload w.env hgiven
    rcases hdeliver : E.deliver w.stream.id (Sent.request ⟨sql, consistency⟩).payload w.env with
      ⟨e | answer, env⟩
    · rw [hdeliver] at hgrown
      exact ⟨_, rfl, hgrown, fun hok => by cases hok⟩
    · rw [hdeliver] at hgrown
      refine ⟨_, rfl, hgrown, fun _ frame hframe resp hresp => ?_⟩
      -- Nothing else was waiting, so that the frame is in the answer.
      have hanswer : frame ∈ answer := by
        have hinbox : w.stream.inbox = [] := hidle.aligned
        simpa [Scene.send, Scene.setStream, Scene.stream, hinbox] using hframe
      rcases h.select (not_lt.mp hlong) hread hdeliver frame hanswer with
        ⟨msg, hmsg⟩ | ⟨resp', hresp', seen, columns, hfrom, hseen, hrows⟩
      · simp [interpret, hmsg] at hresp
      · have hdecode := decode_of_interpret hresp
        rw [hresp', hrows] at hdecode
        exact ⟨seen, columns, hgiven.trans hfrom, hseen, (Except.ok.inj hdecode).symm⟩

omit hread in
/-- Reading a frame takes one of the replies to the poll or fails, and the log has not shrunk
meanwhile. -/
theorem Feeds.readFrame :
    Returns (fun w => Grown log given w ∧ Replies lt log above limit given w.stream.inbox w.env)
      (World.readFrame E) fun r w => Grown log given w ∧
        Replies lt log above limit given r.toOption.toList w.env := by
  rintro w ⟨hgiven, hreplies⟩
  have hnone : ∀ {env}, Replies lt log above limit given [] env :=
    fun frame hframe => absurd hframe List.not_mem_nil
  unfold World.readFrame
  have hgrown := (h.appends given).receive w.stream.id w.env hgiven
  have hlater := (h.appends (log w.env)).receive w.stream.id w.env List.prefix_rfl
  rcases hreceive : E.receive w.stream.id w.env with ⟨e | u, env⟩
  · rw [hreceive] at hgrown
    exact ⟨_, rfl, hgrown, hnone⟩
  · rw [hreceive] at hgrown hlater
    rcases hinbox : w.stream.inbox with _ | ⟨frame, rest⟩
    · exact ⟨_, rfl, hgrown, hnone⟩
    · by_cases hfits : frame.length ≤ maxFrameLen
      · simp only [if_pos hfits]
        refine ⟨_, rfl, hgrown, fun reply hreply resp hresp => ?_⟩
        obtain rfl := List.mem_singleton.mp hreply
        rw [hinbox] at hreplies
        exact (hreplies reply List.mem_cons_self resp hresp).mono hlater
      · simp only [if_neg hfits]
        exact ⟨_, rfl, hgrown, hnone⟩

/-- Writing the poll and reading a frame takes a reply to it. -/
theorem Feeds.exchangeFrames (consistency : Consistency) :
    Returns (Ready log given) (exchangeFrames E .statement (.request ⟨sql, consistency⟩))
      fun r w => Grown log given w ∧ Replies lt log above limit given r.toOption.toList w.env := by
  refine Returns.bind (h.writeFrame hread given consistency) fun wrote => ?_
  cases wrote with
  | error e =>
    refine Triple.pure fun w hw => ⟨_, rfl, hw.1, ?_⟩
    exact fun frame hframe => absurd hframe List.not_mem_nil
  | ok u => exact (h.readFrame given).conseq (fun w hw => ⟨hw.1, hw.2 rfl⟩) fun _ _ hw => hw

/-- One attempt at the poll leaves the log as it was, and returns the next events above the cursor
or a failure. -/
theorem Feeds.tryExecute (consistency : Consistency) :
    Triple (Ready log given) (tryExecute E sql consistency) fun r w =>
      Ready log given w ∧ Settled lt log above limit given r w.env := by
  suffices hreply : Triple (Ready log given) (Client.tryExecute E sql consistency) fun r w =>
      Grown log given w ∧ Settled lt log above limit given r w.env by
    intro w hw
    have hidle : On Idle (Client.tryExecute E sql consistency w).2 :=
      (idle_survives h.oneReply).ask trivial (opensStream_request _) w hw.1
    obtain ⟨hgrown, hsettled⟩ := hreply w hw
    exact ⟨⟨hidle, hgrown⟩, hsettled⟩
  refine Returns.bind (h.exchangeFrames hread given consistency) fun frame => ?_
  have hlasting : Lasting E fun env => given <+: log env ∧
      Replies lt log above limit given frame.toOption.toList env :=
    h.lasting fun env env' hgrown hw => ⟨hw.1.trans hgrown, fun reply hreply resp hresp =>
      (hw.2 reply hreply resp hresp).mono hgrown⟩
  refine Triple.bind (R := fun r w => (Grown log given w ∧
      Replies lt log above limit given frame.toOption.toList w.env) ∧ r = frame.mapError .io)
    (fun w hw => ⟨hlasting.framewise.observed frame w hw, observed_fst frame w⟩) ?_ ?_
  · intro payload
    refine Triple.settle fun w hw => ⟨hw.1.1, ?_⟩
    cases frame with
    | error e => exact nomatch hw.2
    | ok reply =>
      obtain rfl := Except.ok.inj hw.2
      cases hresp : interpret payload with
      | error e => exact trivial
      | ok resp => exact hw.1.2 payload List.mem_cons_self resp hresp
  · exact fun e w hw => ⟨hw.1.1, trivial⟩

omit hread in
/-- A report about the statement keeps an answer to it. -/
theorem Feeds.observeStatement (resp : Response) :
    Keeps (fun w => Ready log given w ∧ Answered lt log above limit given resp w.env)
      (observeStatement E sql) := by
  rintro w ⟨⟨hidle, hgrown⟩, hanswered⟩
  have hlasting : Lasting E fun env => Answered lt log above limit given resp env :=
    h.lasting fun env env' hgrown hanswered => hanswered.mono hgrown
  obtain ⟨-, -, hidle'⟩ := observeStatement_returns (E := E) Idle sql w hidle
  have hgrown' := (h.appends given).framewise.observeStatement sql w hgrown
  exact ⟨⟨hidle', hgrown'⟩, hlasting.framewise.observeStatement sql w hanswered⟩

/-- A poll that is sent again on a fresh connection if the first one fails. -/
theorem Feeds.executeWith (consistency : Consistency) :
    Triple (Ready log given) (executeWith E sql consistency) fun r w =>
      Ready log given w ∧ Settled lt log above limit given r w.env := by
  have htry := h.tryExecute hread given consistency
  have hreconnect : Keeps (Ready log given) (Client.reconnect E) :=
    fun w hw => ⟨Idle.reconnect h.oneReply w hw.1, (h.appends given).reconnect w hw.2⟩
  have hagain : Triple (Ready log given)
      (Client.reconnect E >>= fun _ => Client.tryExecute E sql consistency) fun r w =>
        Ready log given w ∧ Settled lt log above limit given r w.env :=
    Triple.bind hreconnect (fun _ => htry) fun e w hw => ⟨hw, trivial⟩
  have hretry := orRetry_triple htry
    (fun e => hagain.conseq (fun w hw => hw.1) fun _ _ hw => hw) fun r w _ hw => hw
  refine Triple.bind hretry (fun out => ?_) fun e w hw => ⟨hw.1, trivial⟩
  refine Triple.bind (h.observeStatement given out) (fun _ => ?_) fun e w hw => ⟨hw.1, trivial⟩
  exact Triple.pure fun w hw => hw

end Attempt

/-! ## One poll -/

/-- A poll behind events of a log: at a boundary again, with a grown log, and if it returns, it
gives the next page of a log in between. -/
theorem Feeds.streamPoll (events given : List Event) (limit : ℕ) :
    Triple (Ready log given) (streamPoll E stream (positionAfter events) limit) fun r w =>
      Ready log given w ∧ ∀ rows next, r = .ok (rows, next) →
        ∃ seen batch, given <+: seen ∧ Grown log seen w ∧
          batch = Paging.page Event.id lt (Paging.position Event.id events) limit seen ∧
          rows = batch.map Event.row ∧ next = positionAfter (events ++ batch) := by
  have hread := readPoll_pollSql stream (positionAfter events) limit
  rw [above_positionAfter] at hread
  have hexecute := Triple.reads fun consistency => (h.executeWith hread given consistency).conseq
    (fun w (hw : _ ∧ w.client.defaultConsistency = consistency) => hw.1) fun _ _ hw => hw
  refine Triple.bind hexecute (fun resp => Triple.pure fun w hw => ⟨hw.1, ?_⟩)
    fun e w hw => ⟨hw.1, fun rows next hrows => nomatch hrows⟩
  intro rows next hrows
  obtain ⟨seen, columns, hgiven, hseen, rfl⟩ := hw.2
  obtain ⟨rfl, rfl⟩ := Prod.mk.inj (Except.ok.inj hrows)
  exact ⟨seen, _, hgiven, hseen, rfl, rfl, nextPosition_positionAfter events _⟩

end Server

/-! ## Following a stream -/

/-- A caller that follows a stream: its client with the network, its cursor and the batches it was
given. -/
structure Follower (σ : Type) where
  /-- The client and what it talks to. -/
  world : World σ
  /-- The position to pass next time. -/
  cursor : String
  /-- The batches the caller was given, oldest first. -/
  batches : List (List (List Value))

/-- What can happen while a stream is followed: a change elsewhere, or a poll. -/
inductive Happening (σ : Type) where
  | elsewhere (env : σ)
  | poll (limit : ℕ)

/-- The caller after it; a poll that fails gives no batch and no position. -/
def Follower.step (stream : String) (f : Follower σ) : Happening σ → Follower σ
  | .elsewhere env => { f with world := ⟨f.world.toScene, env⟩ }
  | .poll limit =>
    match streamPoll E stream f.cursor limit f.world with
    | (.ok (rows, next), w) => ⟨w, next, f.batches ++ [rows]⟩
    | (.error _, w) => { f with world := w }

/-- While other things happen, the log may be appended to but loses none of its events. -/
def Follower.Appending (log : σ → List Event) (f : Follower σ) : Happening σ → Prop
  | .elsewhere env => log f.world.env <+: log env
  | .poll _ => True

/-- The caller was given these events, which are the beginning of the log, and waits behind
them. -/
structure Follower.Holds (log : σ → List Event) (f : Follower σ) (events : List Event) : Prop where
  /-- The client is at a boundary. -/
  idle : On Idle f.world
  /-- The log begins with the events. -/
  grown : Grown log events f.world
  /-- The position is behind them. -/
  cursor : f.cursor = positionAfter events
  /-- The batches are made of them. -/
  batches : f.batches.flatten = events.map Event.row

section Follow

variable {E} {lt : String → String → Prop} [DecidableRel lt] {log : σ → List Event}
  {stream : String} (h : Feeds lt log E stream) {f : Follower σ} {events : List Event}
include h

/-- A poll that returns gives a page of a log in between. It continues the events given before,
and is empty exactly when they are all of that log. -/
theorem Follower.Holds.poll (hf : f.Holds log events) {limit : ℕ} {rows : List (List Value)}
    {next : String} {w : World σ}
    (hpoll : streamPoll E stream f.cursor limit f.world = (.ok (rows, next), w)) :
    On Idle w ∧ ∃ seen batch, log f.world.env <+: seen ∧ Grown log seen w ∧
      events ++ batch <+: seen ∧ rows = batch.map Event.row ∧
      next = positionAfter (events ++ batch) ∧ (1 ≤ limit → (rows = [] ↔ events = seen)) := by
  have hspec := h.streamPoll events (log f.world.env) limit f.world ⟨hf.idle, List.prefix_rfl⟩
  rw [← hf.cursor, hpoll] at hspec
  obtain ⟨⟨hidle, -⟩, hrows⟩ := hspec
  obtain ⟨seen, batch, hfrom, hseen, hbatch, rfl, hnext⟩ := hrows rows next rfl
  have hgiven : events <+: seen := hf.grown.trans hfrom
  -- The log that the server saw ascends, being the beginning of one that does.
  have hascends : Paging.Ascends Event.id lt seen := (h.ascends w.env).sublist hseen.sublist
  refine ⟨hidle, seen, batch, hfrom, hseen, ?_, rfl, hnext, fun hlimit => ?_⟩
  · rw [hbatch]
    exact Paging.append_page_prefix h.irrefl h.trans hgiven hascends limit
  · rw [List.map_eq_nil_iff, hbatch]
    exact Paging.page_eq_nil_iff h.irrefl h.trans hgiven hascends hlimit

/-- Whatever happens, the caller was given the beginning of the log. -/
theorem Follower.Holds.step (hf : f.Holds log events) {what : Happening σ}
    (happending : f.Appending log what) : ∃ events', (f.step E stream what).Holds log events' := by
  cases what with
  | elsewhere env =>
    exact ⟨events, hf.idle, hf.grown.trans happending, hf.cursor, hf.batches⟩
  | poll limit =>
    have hspec := h.streamPoll events events limit f.world ⟨hf.idle, hf.grown⟩
    rw [← hf.cursor] at hspec
    rcases hpoll : streamPoll E stream f.cursor limit f.world with ⟨e | ⟨rows, next⟩, w⟩
    · rw [hpoll] at hspec
      refine ⟨events, ?_⟩
      simp only [Follower.step, hpoll]
      exact ⟨hspec.1.1, hspec.1.2, hf.cursor, hf.batches⟩
    · obtain ⟨hidle, seen, batch, -, hseen, hgiven, rfl, rfl, -⟩ := hf.poll h hpoll
      refine ⟨events ++ batch, ?_⟩
      simp only [Follower.step, hpoll]
      refine ⟨hidle, hgiven.trans hseen, rfl, ?_⟩
      simp [hf.batches]

/-- **Exactly once.** A client is opened and used, and then follows a stream from its start
while the log is appended to, before, between and during the polls; polls may fail and may be
sent twice. The batches given so far are the beginning of the log, each event once and in order.
A poll that returns is empty exactly when they are the whole log the server saw, and a poll that
is answered returns. -/
theorem stream_poll_exactly_once {w₀ : World σ} (hopened : E.Opened w₀) {s : Session σ}
    (hcalls : Run (Session.step E) (Clear E) ⟨w₀, []⟩ s)
    (hrun : Run (Follower.step E stream) (Follower.Appending log) ⟨s.world, "", []⟩ f) :
    ∃ events, events <+: log f.world.env ∧ f.batches.flatten = events.map Event.row ∧
      (events.map Event.id).Nodup ∧
      (∀ limit rows next w, 1 ≤ limit →
        streamPoll E stream f.cursor limit f.world = (.ok (rows, next), w) →
        ∃ seen, log f.world.env <+: seen ∧ seen <+: log w.env ∧ (rows = [] ↔ events = seen)) ∧
      (∀ limit (sent : Sent) frame env₁ env₂ columns rows,
        sent = .request ⟨pollSql stream f.cursor limit, f.world.client.defaultConsistency⟩ →
        sent.payload.length ≤ maxFrameLen → frame.length ≤ maxFrameLen →
        E.deliver f.world.stream.id sent.payload f.world.env = (.ok [frame], env₁) →
        E.receive f.world.stream.id env₁ = (.ok (), env₂) →
        Response.decode frame = .ok (.rows columns rows) →
        ∃ next w, streamPoll E stream f.cursor limit f.world = (.ok (rows, next), w)) := by
  have hidle : On Idle s.world := hcalls.invariant (I := fun s => Idle s.world.toScene)
    (fun _ _ hclear hs => hs.step h.oneReply hclear) (hopened.idle h.oneReply)
  have hstart : (⟨s.world, "", []⟩ : Follower σ).Holds log [] :=
    ⟨hidle, List.nil_prefix, rfl, rfl⟩
  obtain ⟨events, hf⟩ := hrun.invariant (I := fun f => ∃ events, f.Holds log events)
    (fun f what happending hf => hf.choose_spec.step h happending) ⟨[], hstart⟩
  have hascends : Paging.Ascends Event.id lt events :=
    (h.ascends f.world.env).sublist hf.grown.sublist
  have hdistinct : (events.map Event.id).Nodup := by
    rw [List.Nodup, List.pairwise_map]
    refine hascends.imp fun {a b} hlt heq => ?_
    rw [heq] at hlt
    exact h.irrefl b.id hlt
  refine ⟨events, hf.grown, hf.batches, hdistinct, ?_, ?_⟩
  · intro limit rows next w hlimit hpoll
    obtain ⟨-, seen, batch, hfrom, hseen, -, -, -, hempty⟩ := hf.poll h hpoll
    exact ⟨seen, hfrom, hseen, hempty hlimit⟩
  · intro limit sent frame env₁ env₂ columns rows hsent hfits hframe hdeliver hreceive hdecode
    obtain ⟨w', hpoll⟩ :=
      streamPoll_of_answered hsent hf.idle hfits hframe hdeliver hreceive hdecode
    exact ⟨_, w', hpoll⟩

end Follow

/-! ## A server with one log -/

/-- An identifier is before another in the order of their bytes. -/
def idBefore (a b : String) : Prop := compare (utf8 a) (utf8 b) = .lt

instance : DecidableRel idBefore := fun a b =>
  inferInstanceAs (Decidable (compare (utf8 a) (utf8 b) = .lt))

/-- A log whose identifiers ascend in the order of their bytes. -/
structure FeedLog where
  /-- The events of the log, the oldest first. -/
  events : List Event
  /-- The identifiers of the events ascend strictly. -/
  ascends : Paging.Ascends Event.id idBefore events

/-- The frame that answers a poll; a reply too long for a frame is an error. -/
def feedReply (log : List Event) (above : Option String) (limit : ℕ) : Frame :=
  let resp := Response.rows ["id"] ((Paging.page Event.id idBefore above limit log).map Event.row)
  if resp.encode.length ≤ maxFrameLen then resp.encode else (Response.error "").encode

/-- A server that answers polls of one stream and takes every other request for a definition. -/
def feedEnv (stream : String) : Env FeedLog where
  probe _ env := (none, env)
  dial _ env := (.ok (), env)
  dialOrder _ env := ([], env)
  deliver _ payload env :=
    match (Request.decode payload).toOption.bind fun req => readPoll stream req.sql with
    | some (above, limit) => (.ok [feedReply env.events above limit], env)
    | none => (.ok [Response.ddl.encode], env)
  receive _ env := (.ok (), env)
  left _ _ := []
  report _ env := env

/-- The server of the example answers the polls of its stream as a log does. -/
theorem feedEnv_feeds (stream : String) :
    Feeds idBefore FeedLog.events (feedEnv stream) stream where
  oneReply := by
    refine ⟨?_, ?_⟩
    · rintro payload answer - ⟨conn, env, env', hdeliver⟩
      simp only [feedEnv] at hdeliver
      split at hdeliver
      · obtain rfl := Except.ok.inj (Prod.mk.inj hdeliver).1
        exact le_rfl
      · obtain rfl := Except.ok.inj (Prod.mk.inj hdeliver).1
        exact le_rfl
    · rintro left ⟨conn, env, rfl⟩
      rfl
  irrefl id hlt := by
    rw [idBefore, Std.ReflOrd.compare_self] at hlt
    cases hlt
  trans := Std.TransCmp.lt_trans
  ascends env := env.ascends
  appends given := by
    refine ⟨fun _ _ h => h, fun _ _ h => h, fun _ _ h => h, fun conn payload env h => ?_,
      fun _ _ h => h, fun _ _ h => h⟩
    simp only [feedEnv]
    split <;> exact h
  select := by
    intro conn req above limit env env' answer hfits hread hdeliver frame hframe
    have hfits : req.encode.length < 2 ^ 32 := by
      rw [maxFrameLen] at hfits
      omega
    simp only [feedEnv, Request.decode_encode hfits, Except.toOption, Option.bind_some,
      hread] at hdeliver
    obtain ⟨hanswer, rfl⟩ := Prod.mk.inj hdeliver
    obtain rfl := Except.ok.inj hanswer
    obtain rfl := List.mem_singleton.mp hframe
    unfold feedReply
    dsimp only
    split
    · next hlength =>
      have hshort := Response.fits_of_length (lt_of_le_of_lt hlength (by decide))
      exact .inr ⟨_, Response.decode_encode hshort, env.events, ["id"], List.prefix_rfl,
        List.prefix_rfl, rfl⟩
    · exact .inl ⟨"", Response.decode_encode (Response.fits_of_length (by decide))⟩

/-- A log of two events; there is a quote in the second identifier. -/
def quotedLog : FeedLog :=
  ⟨[⟨"a", by simp, []⟩, ⟨"a'b", by simp, []⟩], List.pairwise_pair.mpr (by decide)⟩

/-- A caller that is about to follow an empty log. -/
def startedFollower : Follower FeedLog :=
  ⟨(hostSession (feedEnv "s") ⟨[], List.Pairwise.nil⟩).world, "", []⟩

/-- The caller after a poll, two events and three more polls. -/
def quotedFollower : Follower FeedLog :=
  [Happening.poll 5, .elsewhere quotedLog, .poll 1, .poll 5, .poll 5].foldl
    (Follower.step (feedEnv "s") "s") startedFollower

/-- The caller is given the two events one by one, between two empty batches. -/
theorem stream_poll_exactly_once_quoted :
    quotedFollower.batches.map List.length = [0, 1, 1, 0] ∧
    ∃ events, events <+: quotedFollower.world.env.events ∧
      quotedFollower.batches.flatten = events.map Event.row ∧ (events.map Event.id).Nodup := by
  have hconnect : connectMany (feedEnv "s") ["host"] ⟨[], List.Pairwise.nil⟩ =
      .ok startedFollower.world := rfl
  -- Nothing was in the log before the two events.
  have hempty : (startedFollower.step (feedEnv "s") "s" (.poll 5)).world.env.events.length = 0 := by
    decide +kernel
  have hguard : Guarded (Follower.step (feedEnv "s") "s") (Follower.Appending FeedLog.events)
      startedFollower [.poll 5, .elsewhere quotedLog, .poll 1, .poll 5, .poll 5] := by
    have hnil := List.eq_nil_of_length_eq_zero hempty
    have happending : (startedFollower.step (feedEnv "s") "s" (.poll 5)).Appending FeedLog.events
        (.elsewhere quotedLog) := by
      simp only [Follower.Appending, hnil]
      exact List.nil_prefix
    exact ⟨trivial, happending, trivial, trivial, trivial, trivial⟩
  have hrun : Run (Follower.step (feedEnv "s") "s") (Follower.Appending FeedLog.events)
      startedFollower quotedFollower := by
    unfold quotedFollower
    exact hguard.run
  obtain ⟨events, hgiven, hbatches, hdistinct, -⟩ :=
    stream_poll_exactly_once (feedEnv_feeds "s") (connectMany_opened hconnect)
      (s := ⟨_, []⟩) Run.refl hrun
  have hlengths : quotedFollower.batches.map List.length = [0, 1, 1, 0] := by decide +kernel
  exact ⟨hlengths, events, hgiven, hbatches, hdistinct⟩

end Skaidb

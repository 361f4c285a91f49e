import Skaidb.Driver.Hosting

/-!
# The driver stands for the service

A client whose connection is at a boundary does what the methods at the desk do, call by
call: in an environment that hosts a service the frames, the identifiers of a batch, the chunks
of a stream and the re-dials cannot be told from calling the service directly.
-/

namespace Skaidb

open Program Client

variable {σ ς : Type} {E : Env σ} {S : Service ς} {view : σ → ς}

section Hosted

variable (hE : Hosts E S view)

include hE

/-! ## Statements -/

omit hE in
/-- However the service answers a request, it does not answer with a transport failure. -/
theorem call_ne_io (req : ClientRequest) (d : Desk ς) (e : IoError) :
    (S.call req d).1 ≠ .error (.io e) := by
  have hjudge (response : Response) : Service.judge response ≠ .error (.io e) := by
    cases response <;> simp [Service.judge]
  exact hjudge _

omit hE in
/-- An attempt that does not fail with the connection is not repeated. -/
theorem orRetry_hosted {α : Type} {first again : Driver σ α} {m : Local ς α}
    (h : Simulates CanGoOn (World.desk view) first m) (hio : ∀ d e, (m d).1 ≠ .error (.io e)) :
    Simulates CanGoOn (World.desk view) (orRetry first again) m := by
  intro w hw
  obtain ⟨hresult, hdesk, hready⟩ := h w hw
  have hne := hio (w.desk view)
  rw [← hresult] at hne
  have hrun : orRetry first again w = first w := by
    rw [orRetry, bind_apply]
    unfold attempt
    rcases hfirst : first w with ⟨r, w'⟩
    rw [hfirst] at hne
    cases r with
    | ok a => rfl
    | error e =>
      cases e with
      | io e => exact absurd rfl (hne e)
      | _ => rfl
  rw [hrun]
  exact ⟨hresult, hdesk, hready⟩

/-- Executing a statement that fits a frame is one call of the service with the query. -/
theorem executeWith_hosted {sql : String} (h : FitsQuery sql) (consistency : Consistency) :
    Simulates CanGoOn (World.desk view) (executeWith E sql consistency)
      (S.call (.query sql consistency)) := by
  have hsend := h.sendable consistency
  have hask : Simulates CanGoOn (World.desk view) (tryExecute E sql consistency)
      (S.call (.query sql consistency)) :=
    ask_hosted hE .statement (.request ⟨sql, consistency⟩) hsend.2 hsend.decode.1
      fun _ _ _ => ClientRequest.noConfusion
  apply (orRetry_hosted hask (call_ne_io _)).followed
  intro response w hw
  obtain ⟨w', hrun, hdesk, hready⟩ := observeStatement_silent hE sql w hw
  refine ⟨w', ?_, hdesk, hready⟩
  rw [bind_apply, hrun]
  rfl

/-! ## Batches -/

/-- The frames that answer a batch, numbering from `i`. -/
def taggedReplies : ℕ → List Response → List Frame
  | _, [] => []
  | i, response :: responses =>
    response.encodeInto (tagResponse [] (UInt32.ofNat i)) :: taggedReplies (i + 1) responses

omit hE in
/-- The replies to a batch are one frame for each of its responses. -/
theorem length_taggedReplies (i : ℕ) (responses : List Response) :
    (taggedReplies i responses).length = responses.length := by
  induction responses generalizing i with
  | nil => rfl
  | cons response responses ih => simp [taggedReplies, ih]

omit hE in
/-- The replies to a batch are filed in order. -/
theorem foldlM_taggedReplies (done : List Response) {responses : List Response}
    (hfits : ∀ response ∈ responses, response.Fits)
    (hlen : done.length + responses.length ≤ 2 ^ 32) :
    (taggedReplies done.length responses).foldlM fileReply
        (done.map some ++ List.replicate responses.length none) =
      .ok ((done ++ responses).map some) := by
  induction responses generalizing done with
  | nil =>
    simp only [taggedReplies, List.length_nil, List.replicate_zero, List.append_nil]
    rfl
  | cons response responses ih =>
    obtain ⟨hfirst, hrest⟩ := List.forall_mem_cons.mp hfits
    rw [List.length_cons] at hlen
    have hid : (UInt32.ofNat done.length).toNat = done.length := by
      rw [UInt32.toNat_ofNat']
      exact Nat.mod_eq_of_lt (by omega)
    have hdecode : decodeTaggedResponse
        (response.encodeInto (tagResponse [] (UInt32.ofNat done.length))) =
          .ok (some (UInt32.ofNat done.length), response) := by
      have hne : response.encode ≠ [] := by
        rw [Response.encode_eq]
        cases response <;> simp [Response.bytes]
      rw [encodeInto_tagResponse, decodeTaggedResponse_tagged _ hne, Response.decode_encode hfirst]
      rfl
    have hfile : fileReply (done.map some ++ List.replicate (response :: responses).length none)
        (response.encodeInto (tagResponse [] (UInt32.ofNat done.length))) =
          .ok ((done ++ [response]).map some ++ List.replicate responses.length none) := by
      refine fileReply_eq_ok_iff.mpr ⟨_, response, hdecode, ?_, ?_⟩
      · rw [hid]
        simp
      · rw [hid, List.set_append_right _ _ (by simp)]
        simp [List.replicate_succ]
    rw [taggedReplies, foldlM_fileReply_cons]
    refine ⟨_, hfile, ?_⟩
    have hlast := ih (done ++ [response]) hrest (by simp; omega)
    simpa using hlast

omit hE in
/-- When every reply of a batch could be filed under its number, none of them is left unread. -/
theorem unfiled_of_foldlM {frames : List Frame} {out out' : List (Option Response)}
    (h : frames.foldlM fileReply out = .ok out') : unfiled frames.length out frames = [] := by
  induction frames generalizing out with
  | nil => rfl
  | cons frame rest ih =>
    obtain ⟨out₁, hfile, hrest⟩ := foldlM_fileReply_cons.mp h
    rw [List.length_cons, unfiled, hfile]
    exact ih hrest

omit hE in
/-- A batch is answered by the response to its first statement and then by those to the others. -/
theorem respondAll_cons {consistency : Consistency} {sql : String} {stmts : List String}
    {d d' : Desk ς} {responses : List Response}
    (h : S.respondAll consistency stmts
      { d with service := (S.serve d.conn (.query sql consistency) d.service).2 } =
        (.ok responses, d')) :
    S.respondAll consistency (sql :: stmts) d =
      (.ok ((S.serve d.conn (.query sql consistency) d.service).1 :: responses), d') := by
  change (S.respondAll consistency stmts >>= fun responses => pure (_ :: responses))
    { d with service := (S.serve d.conn (.query sql consistency) d.service).2 } = _
  rw [bind_apply, h]
  rfl

omit hE in
/-- A sequence of requests does not fail and changes the service only. -/
theorem respondAll_ok (consistency : Consistency) (stmts : List String) (d : Desk ς) :
    ∃ responses service,
      S.respondAll consistency stmts d = (.ok responses, { d with service := service }) := by
  induction stmts generalizing d with
  | nil => exact ⟨[], d.service, rfl⟩
  | cons sql stmts ih =>
    obtain ⟨responses, service, hrest⟩ :=
      ih { d with service := (S.serve d.conn (.query sql consistency) d.service).2 }
    exact ⟨_, service, respondAll_cons hrest⟩

/-- All statements of a batch are written, and the replies wait in order. -/
theorem writeBatch_hosted (consistency : Consistency) {stmts : List String}
    (hfits : ∀ sql ∈ stmts, FitsTagged sql) (i : ℕ) {frames : List Frame} {w : World σ}
    (hw : On (Waiting w.stream.id frames) w) (hendpoints : w.client.endpoints ≠ []) :
    ∃ responses w', writeBatch E consistency stmts i w = (.ok (), w') ∧
      S.respondAll consistency stmts (w.desk view) = (.ok responses, w'.desk view) ∧
      responses.length = stmts.length ∧ (∀ response ∈ responses, response.Fits) ∧
      w'.client.endpoints ≠ [] ∧
      On (Waiting w.stream.id (frames ++ taggedReplies i responses)) w' := by
  induction stmts generalizing i frames w with
  | nil =>
    refine ⟨[], w, rfl, rfl, rfl, fun _ h => absurd h List.not_mem_nil, hendpoints, ?_⟩
    rw [taggedReplies, List.append_nil]
    exact hw
  | cons sql stmts ih =>
    obtain ⟨hsql, hrest⟩ := List.forall_mem_cons.mp hfits
    have hsend : (ClientRequest.query sql consistency).Sendable := by
      refine FitsQuery.sendable ?_ consistency
      unfold FitsTagged at hsql
      unfold FitsQuery
      omega
    obtain ⟨w₁, hwrite, ⟨hdesk, hendpoints₁⟩, hwaiting⟩ := writeFrame_hosted hE
      .statement (.tagged (UInt32.ofNat i) (.query sql consistency))
      (by rw [length_tagged_query]; exact hsql) (hsend.decode.2 _) hw hendpoints
    have hid : w₁.stream.id = w.stream.id := hwaiting.conn
    obtain ⟨responses, w₂, hbatch, hall, hlength, hresponses, hendpoints₂, hwaiting₂⟩ :=
      ih hrest (i + 1) (w := w₁) (hid ▸ hwaiting) hendpoints₁
    refine ⟨(S.serve w.stream.id (.query sql consistency) (view w.env)).1 :: responses, w₂,
      ?_, ?_, ?_, ?_, hendpoints₂, ?_⟩
    · rw [writeBatch, bind_apply, hwrite]
      exact hbatch
    · rw [hdesk] at hall
      exact respondAll_cons hall
    · rw [List.length_cons, List.length_cons, hlength]
    · exact List.forall_mem_cons.mpr ⟨(S.serve_fits _ _ _).fits, hresponses⟩
    · rw [hid, List.append_assoc] at hwaiting₂
      exact hwaiting₂

/-- A pipelined attempt on a hosted client gives what the service gives one statement after
another. -/
theorem tryPipeline_hosted (consistency : Consistency) {stmts : List String}
    (hlen : stmts.length < 2 ^ 32) (hfits : ∀ sql ∈ stmts, FitsTagged sql) :
    Simulates CanGoOn (World.desk view) (tryPipeline E stmts consistency)
      (S.respondAll consistency stmts) := by
  intro w hw
  obtain ⟨responses, w₁, hwrite, hall, hlength, hresponses, hendpoints, hwaiting⟩ :=
    writeBatch_hosted hE consistency hfits 0 hw.waiting hw.endpoints
  rw [List.nil_append] at hwaiting
  have hfiled : (taggedReplies 0 responses).foldlM fileReply
      (List.replicate stmts.length none) = .ok (responses.map some) := by
    have h := foldlM_taggedReplies [] hresponses (by simp only [List.length_nil]; omega)
    rwa [hlength] at h
  have hlengths : (taggedReplies 0 responses).length = stmts.length := by
    rw [length_taggedReplies, hlength]
  -- Reading the replies succeeds, leaves none of them and is not seen.
  have hread := readBatch_waiting (fun env => (hE.receive _ env).1) true _
    (List.replicate stmts.length none) w₁ hwaiting
  have hleft := readBatch_triple (E := E) w₁.toScene true stmts.length
    (List.replicate stmts.length none) w₁ rfl
  have hbears := (bears_framewise hE (w₁.desk view)).readBatch true stmts.length
    (List.replicate stmts.length none) w₁ ⟨rfl, hendpoints⟩
  rw [hlengths] at hread
  rcases hrun : readBatch E true stmts.length (List.replicate stmts.length none) w₁ with ⟨r, w₂⟩
  rw [hrun] at hread hleft hbears
  obtain rfl : r = .ok (responses.map some) := hread.trans hfiled
  have hscene : w₂.toScene = w₁.toScene.leave [] := by
    obtain ⟨-, e, he⟩ | ⟨hleft, -⟩ := hleft
    · cases he
    · rw [hleft, ← hlengths, hwaiting.inbox, unfiled_of_foldlM]
      rw [hlengths]
      exact hfiled
  have htry : tryPipeline E stmts consistency w = (.ok responses, w₂) := by
    rw [tryPipeline, bind_apply, hwrite]
    dsimp only
    rw [bind_apply, hrun]
    dsimp only
    rw [expectAll_map_some]
    rfl
  have hready : CanGoOn w₂ := by
    obtain ⟨_, service, hservice⟩ := respondAll_ok (S := S) consistency stmts (w.desk view)
    have hdesk : w₁.desk view = { w.desk view with service := service } :=
      (Prod.ext_iff.mp (hall.symm.trans hservice)).2
    refine hbears.ready ?_ ?_
    · rw [hdesk]
      exact hw.bound
    · unfold On
      rw [hscene]
      exact ⟨rfl, rfl, by simp⟩
  rw [htry, hall]
  exact ⟨rfl, hbears.1, hready⟩

/-- Telling the pool of a batch changes nothing that the caller of a hosted client sees. -/
theorem observeBatch_silent (batch : List (String × Response)) (w : World σ) (hw : CanGoOn w) :
    ∃ w', observeBatch E batch w = (.ok (), w') ∧ w'.desk view = w.desk view ∧ CanGoOn w' := by
  apply silent (fun d => (bears_framewise hE d).observeBatch batch) _ w hw
  intro conn
  exact (observeBatch_returns _ batch).conseq (fun _ h => h) fun _ _ ⟨a, ha, h⟩ => ⟨a, ha, h, rfl⟩

/-- A pipelined batch does to the service what its statements do when they are asked one after
another. -/
theorem pipelineWith_hosted (consistency : Consistency) {stmts : List String}
    (hlen : stmts.length < 2 ^ 32) (hfits : ∀ sql ∈ stmts, FitsTagged sql) :
    Simulates CanGoOn (World.desk view) (pipelineWith E stmts consistency)
      (S.respondAll consistency stmts) := by
  unfold pipelineWith
  cases stmts with
  | nil => exact Simulates.pure []
  | cons sql stmts =>
    have htry := tryPipeline_hosted hE consistency hlen hfits
    refine (orRetry_hosted htry fun d e => ?_).followed fun responses w hw => ?_
    · obtain ⟨responses, service, hall⟩ := respondAll_ok (S := S) consistency (sql :: stmts) d
      rw [hall]
      intro h
      cases h
    · obtain ⟨w', hrun, hdesk, hready⟩ := observeBatch_silent hE _ w hw
      refine ⟨w', ?_, hdesk, hready⟩
      rw [bind_apply, hrun]
      rfl

/-! ## Prepared statements -/

/-- `prepare` does over the network what preparing the statement at the desk does. -/
theorem prepare_hosted {sql : String} (h : (ClientRequest.prepare sql).Sendable) :
    Simulates CanGoOn (World.desk view) (Client.prepare E sql) (S.prepare sql) := by
  have hask := roundtrip_hosted hE .statement h
    fun _ _ _ => ClientRequest.noConfusion
  refine (orRetry_hosted hask (call_ne_io _)).bind fun response => ?_
  exact Simulates.reads_bind fun w _ => Simulates.settle _

/-- A request that names a prepared statement; the statement is not prepared again. -/
theorem withPrepared_hosted (stmt : Prepared) (request : UInt32 → ClientRequest)
    (h : (request stmt.id).Sendable)
    (hreq : ∀ sql params consistency, request stmt.id ≠ .queryStream sql params consistency) :
    Simulates CanGoOn (World.desk view) (withPrepared E stmt request)
      (S.onPrepared stmt request) := by
  intro w hw
  obtain ⟨hresult, hdesk, hready⟩ := roundtrip_hosted hE (.handle stmt.sql) h hreq w hw
  have hne := call_ne_io (S := S) (request stmt.id) (w.desk view)
  rw [← hresult] at hne
  have hrun : withPrepared E stmt request w =
      (.ok ((roundtrip E (.handle stmt.sql) (request stmt.id) w).1, stmt),
        (roundtrip E (.handle stmt.sql) (request stmt.id) w).2) := by
    rw [withPrepared, bind_apply]
    unfold attempt
    rcases hfirst : roundtrip E (.handle stmt.sql) (request stmt.id) w with ⟨r, w'⟩
    rw [hfirst] at hne
    cases r with
    | ok a => rfl
    | error e =>
      cases e with
      | io e => exact absurd rfl (hne e)
      | _ => rfl
  rw [hrun]
  refine ⟨?_, hdesk, hready⟩
  rw [hresult]
  rfl

/-- `executePreparedWith` does over the network what executing the handle at the desk does, the
handle that is left included. -/
theorem executePreparedWith_hosted (stmt : Prepared) {params : List Value}
    {consistency : Consistency}
    (h : (ClientRequest.execute stmt.id params consistency).Sendable) :
    Simulates CanGoOn (World.desk view) (executePreparedWith E stmt params consistency)
      (S.executePrepared stmt params consistency) := by
  refine (withPrepared_hosted hE stmt (fun id => .execute id params consistency) h
    fun _ _ _ => ClientRequest.noConfusion).followed fun r w hw => ?_
  obtain ⟨out, stmt'⟩ := r
  cases out with
  | error e => exact ⟨w, rfl, rfl, hw⟩
  | ok response =>
    obtain ⟨w', hrun, hdesk, hready⟩ := observeStatement_silent hE stmt'.sql w hw
    refine ⟨w', ?_, hdesk, hready⟩
    dsimp only
    rw [bind_apply, hrun]
    rfl

/-- Executing a prepared statement for a list of rows is what the service's own method does with
them. -/
theorem executeBatch_hosted (stmt : Prepared) {rows : List (List Value)}
    (h : ∀ consistency, (ClientRequest.executeBatch stmt.id rows consistency).Sendable) :
    Simulates CanGoOn (World.desk view) (Client.executeBatch E stmt rows)
      (S.executeBatch stmt rows) := by
  refine Simulates.reads_bind fun w _ => ?_
  have hprepared := withPrepared_hosted hE stmt
    (fun id => .executeBatch id rows w.client.defaultConsistency) (h _)
    fun _ _ _ => ClientRequest.noConfusion
  refine hprepared.bind fun r => ?_
  obtain ⟨out, stmt'⟩ := r
  cases out with
  | error e => exact Simulates.pure _
  | ok response =>
    cases response with
    | mutation affected =>
      intro w hw
      obtain ⟨w', hrun, hdesk, hready⟩ := observeStatement_silent hE stmt'.sql w hw
      dsimp only
      rw [bind_apply, hrun]
      exact ⟨rfl, hdesk, hready⟩
    | _ => exact Simulates.pure _

/-! ## Row streams -/

omit hE in
/-- The first items are handed out, and the others wait. -/
theorem pull_pending {conn : ℕ} {rest : List Frame}
    (hreceive : ∀ env, (E.receive conn env).1 = .ok ()) (n : ℕ) {s : RowStream}
    {items : List (Except DriverError (List Value))} {w : World σ}
    (h : Pending conn rest s items w) :
    ∃ s' w', s.pull E n w = (.ok (items.take n, s'), w') ∧
      ∃ left, Pending conn rest s' left w' := by
  induction n generalizing s items w with
  | zero => exact ⟨s, w, rfl, items, h⟩
  | succ n ih =>
    obtain ⟨s₁, w₁, hnext, h₁⟩ := next_pending hreceive h
    obtain ⟨s₂, w₂, hpull, h₂⟩ := ih h₁
    refine ⟨s₂, w₂, ?_, h₂⟩
    have htake : items.take (n + 1) = items.head?.toList ++ items.tail.take n := by
      cases items <;> simp
    rw [htake, RowStream.pull, bind_apply, hnext]
    dsimp only
    rw [bind_apply, hpull]
    rfl

omit hE in
/-- The first frame that waits begins the stream, or tells why there is none. -/
theorem beginStream_start {conn : ℕ} {rest : List Frame}
    (hreceive : ∀ env, (E.receive conn env).1 = .ok ()) (sql : String) {first : Frame}
    {response : Response} (hdecode : Response.decode first = .ok response) :
    Triple (On (Waiting conn (first :: rest))) (beginStream E sql) fun r w =>
      r = RowStream.start response ∧ On (Waiting conn rest) w := by
  refine Returns.bind (readFrame_waiting hreceive first rest) fun read => ?_
  refine Triple.assume ?_
  rintro rfl
  refine Triple.bind (R := fun r => On fun s => Waiting conn rest s ∧ r = .ok first) ?_
    (fun payload => ?_) ?_
  · refine observed_triple ?_ ?_
    · rintro v s hv hs
      cases hv
      exact ⟨hs, rfl⟩
    · intro e s he
      cases he
  · refine Triple.assume fun hpayload => ?_
    obtain rfl := Except.ok.inj hpayload
    rw [hdecode]
    refine Returns.bind (R := fun _ => On (Waiting conn rest)) ?_ fun _ => ?_
    · split
      · exact observeStatement_returns _ sql
      · exact fun w hw => ⟨(), rfl, hw⟩
    · exact Triple.settle fun w hw => ⟨rfl, hw⟩
  · intro e w hw
    cases hw.2

omit hE in
/-- The chunks of a result and its last response are frames that a stream reads back as these
chunks. -/
theorem streamed_responses (chunks : List (List (List Value))) (failure : Option String)
    (hfits : ∀ response ∈ chunks.map Response.rowsChunk ++ [StreamReply.last failure],
      response.FitsFrame) :
    Streamed ((chunks.map Response.rowsChunk ++ [StreamReply.last failure]).map Response.encode)
      chunks failure := by
  induction chunks with
  | nil =>
    have hlast := Response.decode_encode (hfits _ List.mem_cons_self).fits
    cases failure with
    | none => exact .ends hlast
    | some msg => exact .fails hlast
  | cons rows chunks ih =>
    obtain ⟨hfirst, hrest⟩ := List.forall_mem_cons.mp hfits
    exact .chunk (Response.decode_encode hfirst.fits) (ih hrest)

omit hE in
/-- The first rows of the reply whose frames wait are handed out, and the rest is read. -/
theorem drainStream_hosted {conn : ℕ} (hreceive : ∀ env, (E.receive conn env).1 = .ok ())
    (sql : String) (n : ℕ) {reply : StreamReply} (hreply : reply.WellFormed) {w : World σ}
    (hw : On (Waiting conn (reply.responses.map Response.encode)) w) :
    ∃ w', (beginStream E sql >>= fun s => s.pull E n >>= fun r => r.2.drop E >>= fun _ =>
        pure r.1) w = (reply.firstRows n, w') ∧ On (Waiting conn []) w' := by
  obtain ⟨hfits, hsingle⟩ := hreply
  -- A stream that has begun hands out its items.
  have hrows {s : RowStream} {items : List (Except DriverError (List Value))} {w₁ : World σ}
      (h : Pending conn [] s items w₁) :
      ∃ w', (s.pull E n >>= fun r => r.2.drop E >>= fun _ => pure r.1) w₁ =
        (.ok (items.take n), w') ∧ On (Waiting conn []) w' := by
    obtain ⟨s₂, w₂, hpull, left, hleft⟩ := pull_pending hreceive n h
    obtain ⟨w₃, hdrop, hw₃⟩ := drop_pending hreceive hleft
    refine ⟨w₃, ?_, hw₃⟩
    rw [bind_apply, hpull]
    dsimp only
    rw [bind_apply, hdrop]
    rfl
  cases reply with
  | rows columns chunks failure =>
    obtain ⟨hfirst, hrest⟩ := List.forall_mem_cons.mp hfits
    obtain ⟨hstart, hwaiting⟩ := beginStream_start hreceive sql
      (Response.decode_encode hfirst.fits) w hw
    obtain ⟨w', hrun, hw'⟩ := hrows (s := ⟨columns, 0, [], [], false⟩)
      (.fetching rfl (streamed_responses chunks failure hrest) rfl
        (by rw [List.append_nil]; exact hwaiting))
    refine ⟨w', ?_, hw'⟩
    rw [bind_apply]
    rcases hbegin : beginStream E sql w with ⟨r, w₁⟩
    rw [hbegin] at hstart hrun
    obtain rfl : r = .ok ⟨columns, 0, [], [], false⟩ := hstart
    exact hrun
  | single response =>
    obtain ⟨hstart, hwaiting⟩ := beginStream_start hreceive sql
      (Response.decode_encode (hfits response List.mem_cons_self).fits) w hw
    rw [bind_apply]
    rcases hbegin : beginStream E sql w with ⟨r, w₁⟩
    rw [hbegin] at hstart hwaiting
    obtain rfl : r = _ := hstart
    have hempty (affected : UInt64) :
        ∃ w', (RowStream.pull E n ⟨[], affected, [], [], true⟩ >>= fun r => r.2.drop E >>= fun _ =>
          pure r.1) w₁ = (.ok [], w') ∧ On (Waiting conn []) w' := by
      have h := hrows (s := ⟨[], affected, [], [], true⟩) (.ended rfl rfl hwaiting)
      rwa [List.map_nil, List.take_nil] at h
    cases response with
    | rowsHeader columns => exact absurd rfl (hsingle columns)
    | mutation affected => exact hempty affected
    | ddl => exact hempty 0
    | resultSets sets =>
      cases sets with
      | nil => exact hempty 0
      | cons set sets =>
        exact hrows (s := ⟨set.1, 0, set.2, sets, true⟩) (.ended rfl rfl hwaiting)
    | _ => exact ⟨w₁, rfl, hwaiting⟩

/-- A streamed query hands out the first rows of what the service replies. -/
theorem streamRows_hosted {sql : String} {params : List Value} {consistency : Consistency}
    (h : (ClientRequest.queryStream sql params consistency).Sendable) (n : ℕ) :
    Simulates CanGoOn (World.desk view) (Client.streamRows E sql params consistency n)
      (S.streamRows sql params consistency n) := by
  intro w hw
  obtain ⟨w₁, hwrite, hbears, hwaiting⟩ := writeFrame_hosted hE .statement
    (.client (.queryStream sql params consistency)) h.2 h.decode.1 hw.waiting hw.endpoints
  obtain ⟨w₂, hdrain, hwaiting₂⟩ := drainStream_hosted
    (fun env => (hE.receive w.stream.id env).1) sql n
    (S.stream_fits w.stream.id sql params consistency (view w.env)) hwaiting
  have hframewise := bears_framewise hE
    { w.desk view with
      service := (S.stream w.stream.id sql params consistency (view w.env)).2 }
  have hkept := ((hframewise.beginStream sql).bind fun s => hframewise.drainStream n s) w₁ hbears
  have hrun : Client.streamRows E sql params consistency n w =
      ((S.stream w.stream.id sql params consistency (view w.env)).1.firstRows n, w₂) := by
    have hsend : sendStream E (.client (.queryStream sql params consistency)) w = (.ok (), w₁) := by
      rw [sendStream, bind_apply, hwrite]
      rfl
    have hquery : queryStreamParamsWith E sql params consistency w = beginStream E sql w₁ := by
      rw [queryStreamParamsWith, bind_apply, hsend]
    rw [← hdrain, Client.streamRows, bind_apply, bind_apply, hquery]
  rw [hrun]
  rw [hdrain] at hkept
  exact ⟨rfl, hkept.1, hkept.ready hw.bound hwaiting₂⟩

end Hosted

/-! ## Calls -/

section Calls

variable (view) in
/-- What is seen of a session: the desk and the handles. -/
def seenSession (s : World σ × List Prepared) : Desk ς × List Prepared := (s.1.desk view, s.2)

/-- The call on the driver is the call at the desk. -/
def Agrees (r' : Answer × World σ × List Prepared) (r : Answer × Desk ς × List Prepared)
    (view : σ → ς) : Prop :=
  r'.1 = r.1 ∧ seenSession view r'.2 = r.2 ∧ CanGoOn r'.2.1

/-- A method that has nothing to do with the handles. -/
theorem plain_agrees {α : Type} (answer : Except DriverError α → Answer)
    {m' : Driver σ α} {m : Local ς α} (h : Simulates CanGoOn (World.desk view) m' m)
    {s : World σ × List Prepared} (hs : CanGoOn s.1) :
    Agrees (Methods.plain answer m' s) (Methods.plain answer m (seenSession view s)) view := by
  obtain ⟨hresult, hdesk, hready⟩ := h s.1 hs
  refine ⟨congrArg answer hresult, ?_, hready⟩
  exact Prod.ext hdesk rfl

/-- A method on one of the handles of a session agrees with that of the desk when it does so on
every statement. -/
theorem onHandle_agrees {α : Type} (answer : Except DriverError α → Answer)
    {m' : Prepared → Driver σ (Except DriverError α × Prepared)}
    {m : Prepared → Local ς (Except DriverError α × Prepared)}
    (h : ∀ stmt, Simulates CanGoOn (World.desk view) (m' stmt) (m stmt)) (handle : ℕ)
    {s : World σ × List Prepared} (hs : CanGoOn s.1) :
    Agrees (Methods.onHandle answer m' handle s)
      (Methods.onHandle answer m handle (seenSession view s)) view := by
  unfold Methods.onHandle
  have hhandles : (seenSession view s).2 = s.2 := rfl
  rw [hhandles]
  cases s.2[handle]? with
  | none => exact ⟨rfl, rfl, hs⟩
  | some stmt =>
    obtain ⟨hresult, hdesk, hready⟩ := h stmt s.1 hs
    have hseen : (seenSession view s).1 = s.1.desk view := rfl
    dsimp only
    rw [hseen]
    rcases hrun' : m' stmt s.1 with ⟨r', w'⟩
    rcases hrun : m stmt (s.1.desk view) with ⟨r, d⟩
    rw [hrun'] at hready
    rw [hrun', hrun] at hresult hdesk
    obtain rfl : r' = r := hresult
    obtain rfl : w'.desk view = d := hdesk
    cases r' with
    | error e => exact ⟨rfl, rfl, hready⟩
    | ok out => exact ⟨rfl, rfl, hready⟩

/-- Adding endpoints to a client that has some leaves it with some. -/
theorem addEndpoints_ne_nil {endpoints : List String} (h : endpoints ≠ []) (more : List String) :
    Client.addEndpoints endpoints more ≠ [] := by
  unfold Client.addEndpoints
  induction more generalizing endpoints with
  | nil => exact h
  | cons e more ih =>
    rw [List.foldl_cons]
    apply ih
    split
    · exact h
    · simp

/-- One call of a session over the network is answered as the same call at the desk, and leaves the
same session. -/
theorem step_agrees (hE : Hosts E S view) {c : Call} (hc : c.Sendable)
    {s : World σ × List Prepared} (hs : CanGoOn s.1) :
    Agrees ((driverMethods E).step s c) (S.methods.step (seenSession view s) c) view := by
  cases c with
  | useDatabase database => exact plain_agrees _ (useDatabase_hosted hE hc) hs
  | setScanBudgetRows rows => exact plain_agrees _ (setScanBudgetRows_hosted hE rows) hs
  | setConsistency consistency =>
    have h : Simulates CanGoOn (World.desk view) ((driverMethods E).setConsistency consistency)
        (S.methods.setConsistency consistency) :=
      Simulates.change (fun _ => rfl) fun w hw =>
        ⟨hw.waiting.of_stream rfl, hw.endpoints, hw.bound⟩
    exact plain_agrees _ h hs
  | addEndpoints more =>
    have h : Simulates CanGoOn (World.desk view) ((driverMethods E).addEndpoints more)
        (S.methods.addEndpoints more) := fun w hw =>
      ⟨rfl, rfl, hw.waiting.of_stream rfl, addEndpoints_ne_nil hw.endpoints more, hw.bound⟩
    exact plain_agrees _ h hs
  | reconnect => exact plain_agrees _ (reconnect_hosted hE) hs
  | execute sql consistency => exact plain_agrees _ (executeWith_hosted hE hc consistency) hs
  | pipeline stmts consistency =>
    exact plain_agrees _ (pipelineWith_hosted hE consistency hc.1 hc.2) hs
  | prepare sql =>
    obtain ⟨hresult, hdesk, hready⟩ := prepare_hosted hE hc s.1 hs
    have hseen : (seenSession view s).1 = s.1.desk view := rfl
    simp only [Methods.step, hseen, driverMethods, Service.methods]
    rcases hrun' : Client.prepare E sql s.1 with ⟨r', w'⟩
    rcases hrun : S.prepare sql (s.1.desk view) with ⟨r, d⟩
    rw [hrun'] at hready
    rw [hrun', hrun] at hresult hdesk
    obtain rfl : r' = r := hresult
    obtain rfl : w'.desk view = d := hdesk
    cases r' with
    | error e => exact ⟨rfl, rfl, hready⟩
    | ok out => exact ⟨rfl, rfl, hready⟩
  | executePrepared handle params consistency =>
    exact onHandle_agrees _ (fun stmt => executePreparedWith_hosted hE stmt (hc stmt.id)) handle hs
  | executeBatch handle rows =>
    exact onHandle_agrees _ (fun stmt => executeBatch_hosted hE stmt (hc stmt.id)) handle hs
  | streamRows sql params consistency rows =>
    exact plain_agrees _ (streamRows_hosted hE hc rows) hs

/-- The answers of calls one after another are given by the calls of a session. -/
theorem results_driverMethods (E : Env σ) (calls : List Call) (s : Session σ) :
    (results (driverMethods E).step calls (s.world, s.handles)).2 =
      ((calls.foldl (Session.step E) s).world, (calls.foldl (Session.step E) s).handles) := by
  induction calls generalizing s with
  | nil => rfl
  | cons c calls ih =>
    rw [results]
    dsimp only
    rw [step_driverMethods, ih]
    rfl

/-- A client that has just connected can go on. -/
theorem connectMany_ready (hE : Hosts E S view) {endpoints : List String} {env : σ} {w : World σ}
    (h : connectMany E endpoints env = .ok w) : CanGoOn w := by
  unfold connectMany at h
  dsimp only at h
  rcases horder : orderByLatency E (dedup endpoints) env with ⟨ordered, env'⟩
  rw [horder] at h
  cases ordered with
  | nil => cases h
  | cons ep rest =>
    have hdial := (hE.dial ep env').1
    simp only [List.isEmpty_cons, Bool.false_eq_true, if_false, openFirst] at h
    rcases hrun : E.dial ep env' with ⟨r, env''⟩
    rw [hrun] at h hdial
    obtain rfl : r = .ok () := hdial
    let client : Client := ⟨ep :: rest, ep, ⟨0, true, []⟩, .quorum, none, 0, false⟩
    have hready : CanGoOn (⟨⟨client, 1, [], true⟩, env''⟩ : World σ) :=
      ⟨⟨rfl, rfl, by simp⟩, List.cons_ne_nil _ _, fun db hdb => by cases hdb⟩
    obtain ⟨w', hhello, -, hw'⟩ := sendHello_hosted hE _ hready
    dsimp only at h
    rw [hhello] at h
    obtain rfl := Except.ok.inj h
    exact hw'

/-- **The driver stands for the service.** In an environment that hosts a service, a client at a
boundary gives to any sequence of calls that can be sent the answers of the same calls made
directly at the service, and leaves the service, the session and the handles as they do; and
it is at a boundary again. A client that has just connected is at one. -/
theorem client_stands_for_service (hE : Hosts E S view) :
    (∀ endpoints env w, connectMany E endpoints env = .ok w → CanGoOn w) ∧
    ∀ s : Session σ, CanGoOn s.world → ∀ calls : List Call, (∀ c ∈ calls, c.Sendable) →
      (results (driverMethods E).step calls (s.world, s.handles)).1 =
        (results S.methods.step calls (s.world.desk view, s.handles)).1 ∧
      ((calls.foldl (Session.step E) s).world.desk view,
          (calls.foldl (Session.step E) s).handles) =
        (results S.methods.step calls (s.world.desk view, s.handles)).2 ∧
      CanGoOn (calls.foldl (Session.step E) s).world := by
  refine ⟨fun _ _ _ h => connectMany_ready hE h, fun s hs calls hcalls => ?_⟩
  have h := results_eq (I := fun s : World σ × List Prepared => CanGoOn s.1)
    (π := seenSession view) (driverMethods E).step S.methods.step calls
    (fun s hs c hc => step_agrees hE (hcalls c hc) hs) (w := (s.world, s.handles)) hs
  rw [results_driverMethods] at h
  exact h

/-- Statements asked one after another are executed one after another. -/
theorem results_call (consistency : Consistency) (stmts : List String) {d d' : Desk ς}
    {responses : List Response}
    (h : S.respondAll consistency stmts d = (.ok responses, d')) :
    results (fun d sql => S.call (.query sql consistency) d) stmts d =
      (responses.map Service.judge, d') := by
  induction stmts generalizing d responses with
  | nil =>
    obtain ⟨hresponses, rfl⟩ := Prod.mk.inj h
    obtain rfl := Except.ok.inj hresponses
    rfl
  | cons sql stmts ih =>
    obtain ⟨rest, service, hrest⟩ := respondAll_ok (S := S) consistency stmts
      { d with service := (S.serve d.conn (.query sql consistency) d.service).2 }
    obtain ⟨hresponses, rfl⟩ := Prod.mk.inj ((respondAll_cons hrest).symm.trans h)
    obtain rfl := Except.ok.inj hresponses
    have hfirst : S.call (.query sql consistency) d =
        (Service.judge (S.serve d.conn (.query sql consistency) d.service).1,
          { d with service := (S.serve d.conn (.query sql consistency) d.service).2 }) := rfl
    rw [results, hfirst]
    dsimp only
    rw [ih hrest]
    rfl

/-- **Pipelining.** A batch gives the responses that its statements give when they are executed
one after another, an error response standing for the error it is, and both leave the service
and the session alike. -/
theorem pipelineWith_as_executes (hE : Hosts E S view) {w : World σ} (hw : CanGoOn w)
    (consistency : Consistency) (stmts : List String) (hlen : stmts.length < 2 ^ 32)
    (hfits : ∀ sql ∈ stmts, FitsTagged sql) :
    ∃ responses, (pipelineWith E stmts consistency w).1 = .ok responses ∧
      (results (fun w sql => executeWith E sql consistency w) stmts w).1 =
        responses.map Service.judge ∧
      (pipelineWith E stmts consistency w).2.desk view =
        (results (fun w sql => executeWith E sql consistency w) stmts w).2.desk view := by
  obtain ⟨hresult, hdesk, -⟩ := pipelineWith_hosted hE consistency hlen hfits w hw
  have hexecute : ∀ w : World σ, CanGoOn w → ∀ sql ∈ stmts,
      (executeWith E sql consistency w).1 =
          (S.call (.query sql consistency) (w.desk view)).1 ∧
        (executeWith E sql consistency w).2.desk view =
          (S.call (.query sql consistency) (w.desk view)).2 ∧
        CanGoOn (executeWith E sql consistency w).2 := by
    intro w hw sql hsql
    refine executeWith_hosted hE ?_ consistency w hw
    have h := hfits sql hsql
    unfold FitsTagged at h
    unfold FitsQuery
    omega
  obtain ⟨hresults, hlast, -⟩ := results_eq
    (fun w sql => executeWith E sql consistency w)
    (fun d sql => S.call (.query sql consistency) d) stmts hexecute hw
  obtain ⟨responses, service, hall⟩ := respondAll_ok (S := S) consistency stmts (w.desk view)
  have hcalls := results_call consistency stmts hall
  refine ⟨responses, ?_, ?_, ?_⟩
  · rw [hresult, hall]
  · rw [hresults, hcalls]
  · rw [hdesk, hlast, hcalls, hall]

end Calls

/-! ## Hosting -/

namespace Service

/-- An environment that hosts the service and does nothing else. -/
def env (S : Service ς) : Env ς where
  probe _ s := (none, s)
  dial _ s := (.ok (), s)
  dialOrder lost s := ([lost], s)
  deliver conn payload s :=
    match decodeClientRequest payload with
    | .ok (tag, req) =>
      let (frames, s) := S.frames conn tag req s
      (.ok frames, s)
    | .error _ => (.error ⟨.connectionReset, "connection reset"⟩, s)
  receive _ s := (.ok (), s)
  left _ _ := []
  report _ s := s

/-- The environment that is made from a service hosts it: every dial is accepted, and every request
is answered as the service does. -/
theorem hosts_env (S : Service ς) : Hosts S.env S id where
  dial _ _ := ⟨rfl, rfl⟩
  probe _ _ := rfl
  dialOrder _ _ := ⟨List.cons_ne_nil _ _, rfl⟩
  deliver conn payload tag req s hdecode := by
    simp only [env, hdecode]
    exact ⟨rfl, rfl⟩
  receive _ _ := ⟨rfl, rfl⟩
  report _ _ := rfl

/-- A service that counts the requests it has answered. -/
def counting : Service ℕ where
  serve _ _ n := (.mutation (UInt64.ofNat n), n + 1)
  stream _ _ _ _ n := (.rows ["n"] [[], [[Value.null]]] none, n + 1)
  serve_fits _ _ _ := by
    unfold Response.FitsFrame
    rw [Response.encode_eq]
    simp [Response.bytes, maxFrameLen]
  stream_fits _ _ _ _ _ := by
    refine ⟨?_, fun _ => StreamReply.noConfusion⟩
    change ∀ response ∈ (StreamReply.rows ["n"] [[], [[Value.null]]] none).responses,
      response.encode.length + 5 ≤ maxFrameLen
    decide

end Service

/-- A client of the counting service that has asked nothing yet. -/
def countingWorld : World ℕ :=
  ⟨⟨⟨["host"], "host", ⟨0, true, []⟩, .quorum, none, 0, false⟩, 1, [], true⟩, 0⟩

/-- The world of the example is at a request boundary on a live connection. -/
theorem countingWorld_ready : CanGoOn countingWorld :=
  ⟨⟨rfl, rfl, by simp⟩, List.cons_ne_nil _ _, fun db h => by cases h⟩

/-- A statement, a batch and a stream are counted from zero. -/
theorem counting_answers :
    (results (driverMethods Service.counting.env).step
      [.execute "a" .quorum, .pipeline ["b", "c"] .one, .streamRows "d" [] .quorum 1]
      (countingWorld, [])).1 =
      [.response (.ok (.mutation 0)), .responses (.ok [.mutation 1, .mutation 2]),
        .rows (.ok [.ok [Value.null]])] := by
  have hcalls : ∀ c ∈ [Call.execute "a" .quorum, .pipeline ["b", "c"] .one,
      .streamRows "d" [] .quorum 1], c.Sendable := by
    refine List.forall_mem_cons.mpr ⟨by unfold Call.Sendable FitsQuery; decide, ?_⟩
    refine List.forall_mem_cons.mpr ⟨⟨by decide, by decide⟩, ?_⟩
    refine List.forall_mem_cons.mpr ⟨⟨by decide, ?_⟩, fun _ h => absurd h List.not_mem_nil⟩
    rw [ClientRequest.length_encode]
    decide
  exact ((client_stands_for_service Service.counting.hosts_env).2 ⟨countingWorld, []⟩
    countingWorld_ready _ hcalls).1

/-- Two statements in a batch are answered like two statements. -/
theorem counting_pipelined :
    ∃ responses, (pipelineWith Service.counting.env ["b", "c"] .quorum countingWorld).1 =
        .ok responses ∧
      (results (fun w sql => executeWith Service.counting.env sql .quorum w) ["b", "c"]
        countingWorld).1 = responses.map Service.judge := by
  obtain ⟨responses, hbatch, hexecutes, -⟩ := pipelineWith_as_executes Service.counting.hosts_env
    countingWorld_ready .quorum ["b", "c"] (by decide) (by decide)
  exact ⟨responses, hbatch, hexecutes⟩

end Skaidb

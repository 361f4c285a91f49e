import Skaidb.Driver.Framewise
import Skaidb.Driver.Run

/-!
# Properties of what lies outside

A property of the state outside the driver that every operation of the environment keeps is
kept by every call, whatever its outcome. So is one that a reported failure brings about, and a
call whose request is above the frame limit reports one.
-/

namespace Skaidb

open Program Client

variable {σ : Type} {E : Env σ} {J : σ → Prop}

/-- A property of what lies outside as a property of the world. -/
abbrev Beyond (J : σ → Prop) : World σ → Prop := fun w => J w.env

/-- Every operation of the environment keeps the property. -/
structure Lasting (E : Env σ) (J : σ → Prop) : Prop where
  /-- Measuring the latency of an endpoint keeps the property. -/
  probe : ∀ ep env, J env → J (E.probe ep env).2
  /-- Dialling an endpoint keeps the property, whether it succeeds or not. -/
  dial : ∀ ep env, J env → J (E.dial ep env).2
  /-- Asking for the order of a re-dial keeps the property. -/
  dialOrder : ∀ lost env, J env → J (E.dialOrder lost env).2
  /-- Writing a frame keeps the property. -/
  deliver : ∀ conn payload env, J env → J (E.deliver conn payload env).2
  /-- Waiting for a frame keeps the property. -/
  receive : ∀ conn env, J env → J (E.receive conn env).2
  /-- Telling the pool keeps the property. -/
  report : ∀ r env, J env → J (E.report r env)

namespace Lasting

variable (h : Lasting E J)

include h

/-! ## Over one connection -/

/-- A property of the environment that lasts is kept by `report`. -/
theorem tell (r : Report) : Keeps (Beyond J) (Skaidb.report E r) := by
  refine Keeps.change fun w hw => ?_
  split
  · exact h.report r w.env hw
  · exact hw

/-- A property of the environment that lasts is kept by `World.writeFrame`. -/
theorem writeFrame (purpose : Purpose) (sent : Sent) :
    Keeps (Beyond J) (World.writeFrame E purpose sent) := by
  intro w hw
  unfold World.writeFrame
  have hdeliver := h.deliver w.stream.id sent.payload w.env hw
  split
  · exact hw
  · split
    · next e env henv => rwa [henv] at hdeliver
    · next answer env henv => rwa [henv] at hdeliver

/-- Reading a frame sets nothing right again: a pooled client that was struck stays so. -/
theorem readFrame : Keeps (Beyond J) (World.readFrame E) := by
  intro w hw
  unfold World.readFrame
  have hreceive := h.receive w.stream.id w.env hw
  split
  · next e env henv => rwa [henv] at hreceive
  · next env henv =>
    rw [henv] at hreceive
    split
    · exact hreceive
    · split <;> exact hreceive

/-- Nothing that is done over one connection sets it right again. -/
theorem framewise : Framewise E (Beyond J) fun _ => True where
  writeFrame _ sent := h.writeFrame _ sent
  readFrame := h.readFrame
  report r := h.tell r
  enter := Keeps.change fun _ hw => hw

/-! ## Failover -/

/-- A property of the environment that lasts is kept by probing endpoints one after another. -/
theorem probeAll (endpoints : List String) {env : σ} (henv : J env) :
    J (Client.probeAll E endpoints env).2 := by
  induction endpoints generalizing env with
  | nil => exact henv
  | cons ep rest ih => exact ih (h.probe ep env henv)

/-- Asking for the order of a re-dial keeps the property. -/
theorem redialOrder : Keeps (Beyond J) (Client.redialOrder E) := by
  intro w hw
  have horder : J (orderByLatency E w.client.endpoints w.env).2 := by
    unfold orderByLatency
    split
    · exact hw
    · exact h.probeAll _ hw
  unfold Client.redialOrder
  split
  · exact h.dialOrder _ _ hw
  · exact horder

/-- A property of the environment that lasts is kept by `redial`, whichever endpoint accepts. -/
theorem redial (ordered endpoints : List String) (last : String) :
    Keeps (Beyond J) (Client.redial E ordered endpoints last) := by
  induction endpoints generalizing last with
  | nil => exact Keeps.fails _ _
  | cons ep rest ih =>
    refine Keeps.bind (fun w hw => h.dial ep w.env hw) fun outcome => ?_
    cases outcome with
    | ok u =>
      refine Keeps.bind (Keeps.change fun w hw => hw) fun _ => ?_
      exact Keeps.bind (h.tell _) fun _ => h.framewise.replaySession trivial trivial
    | error text => exact Keeps.bind (h.tell _) fun _ => ih _

/-- A property of the environment that lasts is kept by `reconnect`. -/
theorem reconnect : Keeps (Beyond J) (Client.reconnect E) :=
  Keeps.bind h.redialOrder fun ordered => h.redial ordered ordered ""

omit h in
/-- A method that is retried once keeps what it and the retry keep. -/
theorem orRetry {α : Type} {first again : Driver σ α} (hfirst : Keeps (Beyond J) first)
    (hagain : Keeps (Beyond J) again) : Keeps (Beyond J) (Client.orRetry first again) :=
  orRetry_triple hfirst (fun _ => hagain) fun _ _ _ hw => hw

/-- Preparing a statement sets nothing right again on a connection that was struck. -/
theorem prepare (sql : String) : Keeps (Beyond J) (Client.prepare E sql) := by
  have hask : Keeps (Beyond J) (Client.ask E .statement (.client (.prepare sql))) :=
    h.framewise.ask trivial _
  refine Keeps.bind (orRetry hask (Keeps.bind h.reconnect fun _ => hask)) fun _ => ?_
  exact Keeps.reads fun _ => Keeps.settle _ _

end Lasting

/-! ## Requests above the frame limit -/

/-- The request of the call, or one of its requests, is above the frame limit. -/
def Call.Oversized (s : Session σ) : Call → Prop
  | .execute sql consistency => maxFrameLen < (Sent.request ⟨sql, consistency⟩).payload.length
  | .pipeline stmts consistency => ∃ i sql, stmts[i]? = some sql ∧
    maxFrameLen < (Sent.tagged (UInt32.ofNat i) (.query sql consistency)).payload.length
  | .executePrepared handle params consistency => ∃ stmt, s.handles[handle]? = some stmt ∧
    maxFrameLen < (Sent.client (.execute stmt.id params consistency)).payload.length
  | .executeBatch handle rows => ∃ stmt, s.handles[handle]? = some stmt ∧
    maxFrameLen <
      (Sent.client (.executeBatch stmt.id rows s.world.client.defaultConsistency)).payload.length
  | .streamRows sql params consistency _ =>
    maxFrameLen < (Sent.client (.queryStream sql params consistency)).payload.length
  | _ => False

/-- The client was checked out of a balanced pool, so that it must stay on its member. -/
def Scene.Pooled (s : Scene) : Prop := s.client.pooled = true

/-- The property lasts, and every reported failure brings it about. -/
structure Struck (E : Env σ) (J : σ → Prop) : Prop extends Lasting E J where
  /-- Telling the pool of a failure brings the property about. -/
  failed : ∀ ep env, J (E.report (.failed ep) env)

/-- The method fails in its transport, after the property came about. -/
def Strikes {α : Type} (J : σ → Prop) (m : Driver σ α) : Prop :=
  Triple (On Scene.Pooled) m fun r w => (∃ e, r = .error (.io e)) ∧ Beyond J w

/-- Once the first part of a method has struck, the part behind it does not run. -/
theorem Strikes.bind {α β : Type} {m : Driver σ α} {f : α → Driver σ β} (hm : Strikes J m) :
    Strikes J (m >>= f) := by
  refine Triple.bind hm (fun a w hw => ?_) fun e w hw => ?_
  · obtain ⟨⟨e, he⟩, -⟩ := hw
    cases he
  · obtain ⟨⟨e', he⟩, hJ⟩ := hw
    obtain rfl := Except.error.inj he
    exact ⟨⟨e', rfl⟩, hJ⟩

/-- A call with a retry strikes when its first attempt does, whatever the retry does. -/
theorem Strikes.orRetry {α : Type} {first again : Driver σ α} (hfirst : Strikes J first)
    (hagain : Keeps (Beyond J) again) :
    Triple (On Scene.Pooled) (Client.orRetry first again) fun _ => Beyond J :=
  orRetry_triple hfirst (fun _ => hagain.conseq (fun _ hw => hw.2) fun _ _ hw => hw)
    fun _ _ hother hw => absurd hw.1.choose_spec (hother _)

namespace Struck

variable (h : Struck E J)

include h

/-- On a pooled client a failure of the transport strikes, since the report of it brings the
property about. -/
theorem transport {α : Type} (e : IoError) :
    Strikes J (Skaidb.transport E (.error e : Except IoError α)) := by
  refine Triple.reads fun endpoint => ?_
  refine Returns.bind (R := fun _ => Beyond J) ?_ fun _ => ?_
  · rintro w ⟨hpooled, -⟩
    refine ⟨(), rfl, ?_⟩
    have hclient : w.client.pooled = true := hpooled
    simp only [report, change, hclient, if_true]
    exact h.failed endpoint w.env
  · exact Triple.fails fun w hw => ⟨⟨e, rfl⟩, hw⟩

omit h in
/-- A request above the limit is refused before anything is written. -/
theorem refused {purpose : Purpose} {sent : Sent} (hlong : maxFrameLen < sent.payload.length)
    (P : World σ → Prop) : Returns P (World.writeFrame E purpose sent)
      fun r w => P w ∧ ∃ e, r = .error e := by
  intro w hw
  unfold World.writeFrame Skaidb.writeFrame
  rw [if_pos hlong]
  exact ⟨_, rfl, hw, _, rfl⟩

/-- Asking with a request above the limit strikes: the write is refused before the connection sees
it, and the pool is told. -/
theorem ask {purpose : Purpose} {sent : Sent} (hlong : maxFrameLen < sent.payload.length) :
    Strikes J (Client.ask E purpose sent) := by
  refine Returns.bind (R := fun r w => On Scene.Pooled w ∧ ∃ e, r = .error e) ?_ fun frame => ?_
  · refine Returns.bind (refused hlong _) fun wrote => Triple.assume fun hwrote => ?_
    obtain ⟨e, rfl⟩ := hwrote
    exact fun w hw => ⟨_, rfl, hw, e, rfl⟩
  · refine Triple.assume fun hframe => ?_
    obtain ⟨e, rfl⟩ := hframe
    exact (h.transport e).bind

/-- Executing a statement above the frame limit strikes the connection of a pooled client. -/
theorem executeWith {sql : String} {consistency : Consistency}
    (hlong : maxFrameLen < (Sent.request ⟨sql, consistency⟩).payload.length) :
    Triple (On Scene.Pooled) (Client.executeWith E sql consistency) fun _ => Beyond J := by
  have hretry : Keeps (Beyond J) (Client.reconnect E >>= fun _ => tryExecute E sql consistency) :=
    Keeps.bind h.reconnect fun _ => h.framewise.ask trivial _
  refine Triple.bind ((h.ask hlong).orRetry hretry) (fun out => ?_) fun _ _ hw => hw
  exact Keeps.bind (h.framewise.observeStatement sql) fun _ => Keeps.pure _ _

/-- Writing a batch with a statement above the limit strikes. -/
theorem writeBatch {stmts : List String} {consistency : Consistency} {first i : ℕ} {sql : String}
    (hsql : stmts[i]? = some sql)
    (hlong : maxFrameLen <
      (Sent.tagged (UInt32.ofNat (first + i)) (.query sql consistency)).payload.length) :
    Strikes J (Client.writeBatch E consistency stmts first) := by
  induction stmts generalizing first i with
  | nil => simp at hsql
  | cons head stmts ih =>
    -- A frame before the long one may be written or fail in its transport.
    refine Returns.bind (R := fun r w => On Scene.Pooled w ∧ (i = 0 → ∃ e, r = .error e)) ?_
      fun wrote => Triple.assume fun hwrote => ?_
    · cases i with
      | zero =>
        obtain rfl : head = sql := by simpa using hsql
        exact (refused hlong _).conseq (fun _ hw => hw) fun r w ⟨a, ha, hw, he⟩ =>
          ⟨a, ha, hw, fun _ => he⟩
      | succ i =>
        have hkeep : Returns (On Scene.Pooled) (World.writeFrame E .statement
            (.tagged (UInt32.ofNat first) (.query head consistency))) fun _ => On Scene.Pooled := by
          refine writeFrame_returns fun s r s' hs hwrote => ?_
          cases hwrote <;> exact hs
        exact hkeep.conseq (fun _ hw => hw) fun r w ⟨a, ha, hw⟩ =>
          ⟨a, ha, hw, fun hzero => absurd hzero (Nat.succ_ne_zero i)⟩
    · cases wrote with
      | error e => exact (h.transport e).bind
      | ok u =>
        cases i with
        | zero => simp at hwrote
        | succ i =>
          rw [Nat.add_comm i 1, ← Nat.add_assoc] at hlong
          exact ih (by simpa using hsql) hlong

/-- A pipelined batch with a statement above the limit strikes. -/
theorem pipelineWith {stmts : List String} {consistency : Consistency} {i : ℕ} {sql : String}
    (hsql : stmts[i]? = some sql)
    (hlong : maxFrameLen <
      (Sent.tagged (UInt32.ofNat i) (.query sql consistency)).payload.length) :
    Triple (On Scene.Pooled) (Client.pipelineWith E stmts consistency) fun _ => Beyond J := by
  have hne : ¬ stmts.isEmpty := by
    rintro hempty
    simp [List.isEmpty_iff.mp hempty] at hsql
  unfold Client.pipelineWith
  rw [if_neg hne]
  have htry : Strikes J (tryPipeline E stmts consistency) :=
    (h.writeBatch hsql (by rwa [Nat.zero_add])).bind
  have hagain : Keeps (Beyond J)
      (Client.reconnect E >>= fun _ => tryPipeline E stmts consistency) :=
    Keeps.bind h.reconnect fun _ => h.framewise.tryPipeline trivial stmts consistency
  refine Triple.bind (htry.orRetry hagain) (fun out => ?_) fun _ _ hw => hw
  exact Keeps.bind (h.framewise.observeBatch _) fun _ => Keeps.pure _ _

/-- A request above the limit that names a prepared statement strikes. -/
theorem withPrepared {stmt : Prepared} {request : UInt32 → ClientRequest}
    (hlong : maxFrameLen < (Sent.client (request stmt.id)).payload.length) :
    Triple (On Scene.Pooled) (Client.withPrepared E stmt request) fun _ => Beyond J := by
  refine Triple.attempt (h.ask hlong) fun r w hw => ?_
  obtain ⟨⟨e, rfl⟩, hJ⟩ := hw
  have hfresh : Keeps (Beyond J) (Client.reconnect E >>= fun _ => Client.prepare E stmt.sql) :=
    Keeps.bind h.reconnect fun _ => h.prepare stmt.sql
  refine Keeps.attempt hfresh (fun fresh => ?_) w hJ
  cases fresh with
  | error e => exact Keeps.pure _ _
  | ok fresh => exact Keeps.attempt (h.framewise.ask trivial _) fun _ => Keeps.pure _ _

/-- Executing a prepared statement with a request above the limit strikes. -/
theorem executePreparedWith {stmt : Prepared} {params : List Value} {consistency : Consistency}
    (hlong : maxFrameLen < (Sent.client (.execute stmt.id params consistency)).payload.length) :
    Triple (On Scene.Pooled) (Client.executePreparedWith E stmt params consistency)
      fun _ => Beyond J := by
  refine Triple.bind (h.withPrepared hlong) (fun r => ?_) fun _ _ hw => hw
  obtain ⟨e | resp, stmt'⟩ := r
  · exact Keeps.pure _ _
  · exact Keeps.bind (h.framewise.observeStatement _) fun _ => Keeps.pure _ _

/-- Executing a prepared statement for several rows with a request above the limit
strikes. -/
theorem executeBatch {stmt : Prepared} {rows : List (List Value)} {consistency : Consistency}
    (hlong : maxFrameLen < (Sent.client (.executeBatch stmt.id rows consistency)).payload.length) :
    Triple (fun w => On Scene.Pooled w ∧ w.client.defaultConsistency = consistency)
      (Client.executeBatch E stmt rows) fun _ => Beyond J := by
  refine Triple.reads fun asked => ?_
  refine (Triple.assume (P := On Scene.Pooled) (p := asked = consistency) fun hasked => ?_).conseq
    (fun w hw => ⟨hw.1.1, hw.2.symm.trans hw.1.2⟩) fun _ _ hw => hw
  subst hasked
  refine Triple.bind (h.withPrepared hlong) (fun r => ?_) fun _ _ hw => hw
  obtain ⟨e | resp, stmt'⟩ := r
  · exact Keeps.pure _ _
  · cases resp with
    | mutation affected => exact Keeps.bind (h.framewise.observeStatement _) fun _ => Keeps.pure _ _
    | _ => exact Keeps.pure _ _

/-- Streaming a query above the frame limit strikes the connection of a pooled client. -/
theorem streamRows {sql : String} {params : List Value} {consistency : Consistency} {rows : ℕ}
    (hlong : maxFrameLen < (Sent.client (.queryStream sql params consistency)).payload.length) :
    Triple (On Scene.Pooled) (Client.streamRows E sql params consistency rows)
      fun _ => Beyond J := by
  have hsend : Triple (On Scene.Pooled)
      (sendStream E (.client (.queryStream sql params consistency))) fun _ => Beyond J := by
    refine Returns.bind (refused hlong _) fun wrote => Triple.assume fun hwrote => ?_
    obtain ⟨e, rfl⟩ := hwrote
    refine Triple.attempt (h.transport e) fun r w hw => ?_
    obtain ⟨⟨e', rfl⟩, hJ⟩ := hw
    exact Keeps.bind h.reconnect (fun _ => Keeps.bind (h.writeFrame _ _) fun sent =>
      h.framewise.transport sent) w hJ
  refine Triple.bind (Triple.bind hsend (fun _ => h.framewise.beginStream sql) fun _ _ hw => hw)
    (fun s => ?_) fun _ _ hw => hw
  exact h.framewise.drainStream rows s

omit h in
/-- A method on a handle that exists leaves what the method leaves. -/
theorem afterHandle {α : Type} {s : Session σ} {handle : ℕ} {stmt : Prepared}
    {m : Prepared → Driver σ (α × Prepared)} (hstmt : s.handles[handle]? = some stmt)
    (hm : J (m stmt s.world).2.env) : J (s.afterHandle handle m).world.env := by
  unfold Session.afterHandle
  rw [hstmt]
  dsimp only
  split
  · next hrun => rwa [hrun] at hm
  · next hrun => rwa [hrun] at hm

/-- **A refused request is reported as a failure.** A call on a pooled client with a request
above the frame limit brings the property about. -/
theorem step {s : Session σ} {call : Call} (hpooled : s.world.client.pooled = true)
    (hlong : call.Oversized s) : J (s.step E call).world.env := by
  cases call with
  | execute sql consistency => exact h.executeWith hlong s.world hpooled
  | pipeline stmts consistency =>
    obtain ⟨i, sql, hsql, hlong⟩ := hlong
    exact h.pipelineWith hsql hlong s.world hpooled
  | executePrepared handle params consistency =>
    obtain ⟨stmt, hstmt, hlong⟩ := hlong
    exact afterHandle hstmt (h.executePreparedWith hlong s.world hpooled)
  | executeBatch handle rows =>
    obtain ⟨stmt, hstmt, hlong⟩ := hlong
    exact afterHandle hstmt (h.executeBatch hlong s.world ⟨hpooled, rfl⟩)
  | streamRows sql params consistency rows => exact h.streamRows hlong s.world hpooled
  | _ => exact hlong.elim

end Struck

end Skaidb

import Skaidb.Driver.Stepwise

/-!
# Watching the nodes

An observer writes down which endpoints refuse a dial and which break a connection while a
client runs. It answers nothing itself, so the client behaves as it does unobserved, and what
is written down follows the connection: the endpoints that failed before it was opened, and its
own once it has broken.
-/

namespace Skaidb

open Program Client

/-- What an observer of the nodes has written down. -/
structure Journal where
  /-- The endpoint of the live connection. -/
  endpoint : String
  /-- The frames that its node has sent and the client has not read. -/
  unread : List Frame
  /-- It has broken: a write or a read on it failed, or its node sent a frame above the limit of
  the protocol. -/
  broke : Bool
  /-- The endpoints that refused a dial or broke a connection, newest first. -/
  failed : List String

/-- The journal once an endpoint has refused a dial. -/
def Journal.refuse (j : Journal) (endpoint : String) : Journal :=
  { j with failed := endpoint :: j.failed }

/-- The live connection breaks, and only the given frames can be read from it now. -/
def Journal.lose (j : Journal) (left : List Frame) : Journal :=
  { j with unread := left, broke := true, failed := j.endpoint :: j.failed }

variable {σ : Type}

/-- An environment with an observer. A node that has nothing more to send when the client reads
has closed the connection. -/
def Env.watched (E : Env σ) : Env (σ × Journal) where
  probe ep env :=
    let (latency, after) := E.probe ep env.1
    (latency, after, env.2)
  dial ep env :=
    match E.dial ep env.1 with
    | (.ok (), after) => (.ok (), after, ⟨ep, [], false, env.2.failed⟩)
    | (.error text, after) => (.error text, after, env.2.refuse ep)
  dialOrder lost env :=
    let (order, after) := E.dialOrder lost env.1
    (order, after, env.2)
  deliver conn payload env :=
    match E.deliver conn payload env.1 with
    | (.ok answer, after) =>
      (.ok answer, after, { env.2 with unread := env.2.unread ++ answer })
    | (.error e, after) => (.error e, after, env.2.lose (E.left conn after))
  receive conn env :=
    match E.receive conn env.1 with
    | (.ok (), after) =>
      match env.2.unread with
      | [] => (.ok (), after, env.2.lose (E.left conn after))
      | frame :: rest =>
        (.ok (), after, if frame.length ≤ maxFrameLen then { env.2 with unread := rest }
          else env.2.lose (E.left conn after))
    | (.error e, after) => (.error e, after, env.2.lose (E.left conn after))
  left conn env := E.left conn env.1
  report r env := (E.report r env.1, env.2)

/-- The observer begins: nothing has failed yet under its eyes. -/
def World.watched (w : World σ) : World (σ × Journal) :=
  ⟨w.toScene, w.env, w.client.connected, w.stream.inbox, false, []⟩

/-- The world without the observer and its journal. -/
def World.unwatched (w : World (σ × Journal)) : World σ := ⟨w.toScene, w.env.1⟩

/-! ## The observer changes nothing -/

section Projection

variable {E : Env σ}

/-- The watched program does to the world without the observer what the unwatched program does. -/
abbrev Unseen {α : Type} (m' : Driver (σ × Journal) α) (m : Driver σ α) : Prop :=
  Projects World.unwatched m' m

/-- `writeFrame` does the same whether or not the environment is watched. -/
theorem writeFrame_unseen (purpose : Purpose) (sent : Sent) :
    Unseen (World.writeFrame E.watched purpose sent) (World.writeFrame E purpose sent) := by
  intro w
  unfold World.writeFrame World.unwatched
  dsimp only [Env.watched]
  split
  · exact ⟨rfl, rfl⟩
  · rcases E.deliver w.stream.id sent.payload w.env.1 with ⟨e | answer, after⟩
    · exact ⟨rfl, rfl⟩
    · exact ⟨rfl, rfl⟩

/-- `readFrame` does the same whether or not the environment is watched. -/
theorem readFrame_unseen : Unseen (World.readFrame E.watched) (World.readFrame E) := by
  intro w
  unfold World.readFrame World.unwatched
  dsimp only [Env.watched]
  rcases E.receive w.stream.id w.env.1 with ⟨e | u, after⟩
  · exact ⟨rfl, rfl⟩
  · -- What the observer writes down of the frame is not seen by the client.
    rcases w.env.2.unread with _ | ⟨sent, unread⟩ <;>
      rcases w.stream.inbox with _ | ⟨frame, rest⟩
    · exact ⟨rfl, rfl⟩
    · dsimp only
      split <;> exact ⟨rfl, rfl⟩
    · exact ⟨rfl, rfl⟩
    · dsimp only
      split <;> exact ⟨rfl, rfl⟩

/-- `report` does the same whether or not the environment is watched. -/
theorem report_unseen (r : Report) : Unseen (report E.watched r) (report E r) := by
  refine Projects.change fun w => ?_
  unfold World.unwatched
  by_cases hpooled : w.client.pooled = true
  · simp only [hpooled, if_true]
    rfl
  · simp only [hpooled, Bool.false_eq_true, if_false]

/-- What the client reads of itself does not depend on whether somebody watches it. -/
theorem reads_unseen {α : Type} (g : Client → α) :
    Unseen (reads fun w : World (σ × Journal) => g w.client)
      (reads fun w : World σ => g w.client) :=
  Projects.reads fun _ => rfl

/-- `transport` does the same whether or not the environment is watched. -/
theorem transport_unseen {α : Type} (frame : Except IoError α) :
    Unseen (transport E.watched frame) (transport E frame) := by
  cases frame with
  | ok v => exact Projects.pure v
  | error e =>
    exact Projects.bind (reads_unseen _) fun _ =>
      Projects.bind (report_unseen _) fun _ => Projects.fails _

/-- `observed` does the same whether or not the environment is watched. -/
theorem observed_unseen {α : Type} (frame : Except IoError α) :
    Unseen (observed E.watched frame) (observed E frame) := by
  cases frame with
  | ok v =>
    exact Projects.bind (reads_unseen _) fun _ =>
      Projects.bind (report_unseen _) fun _ => Projects.pure v
  | error e => exact transport_unseen _

/-- `observeStatement` does the same whether or not the environment is watched. -/
theorem observeStatement_unseen (sql : String) :
    Unseen (observeStatement E.watched sql) (observeStatement E sql) :=
  Projects.bind (reads_unseen _) fun _ => report_unseen _

/-- `ask` does the same whether or not the environment is watched. -/
theorem ask_unseen (purpose : Purpose) (sent : Sent) :
    Unseen (ask E.watched purpose sent) (ask E purpose sent) := by
  have hexchange : Unseen (exchangeFrames E.watched purpose sent)
      (exchangeFrames E purpose sent) := by
    refine Projects.bind (writeFrame_unseen purpose sent) fun wrote => ?_
    cases wrote with
    | ok u => exact readFrame_unseen
    | error e => exact Projects.pure _
  refine Projects.bind hexchange fun frame => ?_
  exact Projects.bind (observed_unseen frame) fun _ => Projects.settle _

/-- `replaySession` does the same whether or not the environment is watched. -/
theorem replaySession_unseen : Unseen (replaySession E.watched) (replaySession E) := by
  have hhello : Unseen (sendHello E.watched) (sendHello E) := by
    refine Projects.bind (writeFrame_unseen .hello _) fun wrote => ?_
    cases wrote with
    | ok u => exact Projects.bind readFrame_unseen fun _ => Projects.pure _
    | error e => exact Projects.pure _
  have hdatabase : Unseen (applyDatabase E.watched .rebind) (applyDatabase E .rebind) := by
    refine Projects.bind (reads_unseen id) fun client => ?_
    rcases client with ⟨endpoints, connected, stream, consistency, _ | db, budget, pooled⟩
    · exact Projects.pure _
    · exact Projects.bind (ask_unseen _ _) fun _ => Projects.pure _
  have hbudget : Unseen (applyScanBudget E.watched .rebind) (applyScanBudget E .rebind) := by
    refine Projects.bind (reads_unseen id) fun client => ?_
    split
    · exact Projects.pure _
    · exact Projects.bind (ask_unseen _ _) fun _ => Projects.pure _
  exact Projects.bind hhello fun _ => Projects.bind hdatabase fun _ =>
    Projects.bind hbudget fun _ => Projects.change fun _ => rfl

/-- The order in which endpoints are dialled does not depend on whether the dials are watched. -/
theorem orderByLatency_unseen (endpoints : List String) (env : σ × Journal) :
    (orderByLatency E.watched endpoints env).1 = (orderByLatency E endpoints env.1).1 ∧
      (orderByLatency E.watched endpoints env).2 =
        ((orderByLatency E endpoints env.1).2, env.2) := by
  have hprobe (eps : List String) (env : σ × Journal) :
      probeAll E.watched eps env =
        ((probeAll E eps env.1).1, ((probeAll E eps env.1).2, env.2)) := by
    induction eps generalizing env with
    | nil => rfl
    | cons ep rest ih =>
      simp only [probeAll, Env.watched] at ih ⊢
      rw [ih]
  unfold orderByLatency
  split
  · exact ⟨rfl, rfl⟩
  · rw [hprobe]
    exact ⟨rfl, rfl⟩

/-- `redialOrder` does the same whether or not the environment is watched. -/
theorem redialOrder_unseen : Unseen (redialOrder E.watched) (redialOrder E) := by
  intro w
  have horder := orderByLatency_unseen (E := E) w.client.endpoints w.env
  unfold redialOrder World.unwatched
  split
  · exact ⟨rfl, rfl⟩
  · dsimp only
    rw [horder.1, horder.2]
    exact ⟨rfl, rfl⟩

/-- `redial` does the same whether or not the environment is watched. -/
theorem redial_unseen (ordered eps : List String) (last : String) :
    Unseen (redial E.watched ordered eps last) (redial E ordered eps last) := by
  induction eps generalizing last with
  | nil => exact Projects.fails _
  | cons ep rest ih =>
    have hdial : Unseen (dial E.watched ep) (dial E ep) := by
      intro w
      have hreached : (E.watched.dial ep w.env).1 = (E.dial ep w.env.1).1 ∧
          (E.watched.dial ep w.env).2.1 = (E.dial ep w.env.1).2 := by
        unfold Env.watched
        dsimp only
        split <;> simp_all
      refine ⟨congrArg Except.ok hreached.1, ?_⟩
      simp only [dial, World.unwatched, hreached.2]
    refine Projects.bind hdial fun outcome => ?_
    cases outcome with
    | ok u =>
      refine Projects.bind (Projects.change fun w => rfl) fun _ => ?_
      exact Projects.bind (report_unseen _) fun _ => replaySession_unseen
    | error text => exact Projects.bind (report_unseen _) fun _ => ih _

/-- **The observer changes nothing.** Executing a statement has the same outcome with it. -/
theorem executeWith_unseen (sql : String) (consistency : Consistency) :
    Unseen (executeWith E.watched sql consistency) (executeWith E sql consistency) := by
  have htry : Unseen (tryExecute E.watched sql consistency) (tryExecute E sql consistency) :=
    ask_unseen _ _
  have hreconnect : Unseen (Client.reconnect E.watched) (Client.reconnect E) :=
    Projects.bind redialOrder_unseen fun ordered => redial_unseen ordered ordered ""
  have hretry : Unseen
      (orRetry (tryExecute E.watched sql consistency) do
        Client.reconnect E.watched
        tryExecute E.watched sql consistency)
      (orRetry (tryExecute E sql consistency) do
        Client.reconnect E
        tryExecute E sql consistency) := by
    refine Projects.bind htry.attempt fun r => ?_
    match r with
    | .error (.io e) => exact Projects.bind hreconnect fun _ => htry
    | .ok _ | .error (.proto _) | .error (.server _) | .error (.unexpected _ _) | .error (.auth _)
    | .error (.noEndpoint _) => exact Projects.settle _
  refine Projects.bind hretry fun out => ?_
  exact Projects.bind (observeStatement_unseen sql) fun _ => Projects.pure _

end Projection

/-! ## What is written down -/

/-- The endpoints written down are those that failed before the live connection was opened, and
its own once it has broken. -/
structure Seen (before : List String) (w : World (σ × Journal)) : Prop where
  /-- The observer knows the endpoint of the connection. -/
  endpoint : w.env.2.endpoint = w.client.connected
  /-- It knows which frames are unread. -/
  unread : w.env.2.unread = w.stream.inbox
  /-- The endpoints that failed. -/
  failed : ∀ ep, ep ∈ w.env.2.failed ↔
    ep ∈ before ∨ w.env.2.broke = true ∧ ep = w.client.connected

section Seen

variable {E : Env σ} {before : List String}

/-- When the observer begins to watch a call, its journal is empty, so nothing has failed before. -/
theorem seen_watched (w : World σ) : Seen [] w.watched :=
  ⟨rfl, rfl, fun ep => by simp [World.watched]⟩

/-- The journal is right about a connection that breaks once it has noted that it did. -/
theorem Seen.lose {w : World (σ × Journal)} (h : Seen before w) (after : σ) (left : List Frame) :
    Seen before ⟨w.lose left, after, w.env.2.lose left⟩ := by
  refine ⟨h.endpoint, rfl, fun ep => ?_⟩
  have hfailed := h.failed ep
  simp only [Journal.lose, List.mem_cons, hfailed, h.endpoint, Scene.lose, Scene.setStream,
    true_and]
  tauto

/-- The observer has seen the live connection break. -/
def Broke (w : World (σ × Journal)) : Prop := w.env.2.broke = true

/-- Writing a frame is seen: a failure of a request that fits a frame breaks the connection. -/
theorem writeFrame_seen (purpose : Purpose) (sent : Sent) :
    Returns (Seen before) (World.writeFrame E.watched purpose sent) fun r w => Seen before w ∧
      (r = .ok () → sent.payload.length ≤ maxFrameLen) ∧
      ∀ e, r = .error e → sent.payload.length ≤ maxFrameLen → Broke w := by
  intro w hw
  unfold World.writeFrame Skaidb.writeFrame
  by_cases hlong : sent.payload.length > maxFrameLen
  · rw [if_pos hlong]
    exact ⟨_, rfl, hw, (fun h => by cases h), fun _ _ hfits => absurd hfits (not_le.mpr hlong)⟩
  · rw [if_neg hlong]
    simp only [Env.watched]
    rcases E.deliver w.stream.id sent.payload w.env.1 with ⟨e | answer, after⟩
    · exact ⟨_, rfl, hw.lose after _, (fun h => by cases h), fun _ _ _ => rfl⟩
    · refine ⟨_, rfl, ⟨hw.endpoint, ?_, hw.failed⟩, fun _ => not_lt.mp hlong, fun e h => by cases h⟩
      exact congrArg (· ++ answer) hw.unread

/-- Reading a frame is seen: a failure breaks the connection. -/
theorem readFrame_seen :
    Returns (Seen before) (World.readFrame E.watched) fun r w => Seen before w ∧
      ∀ e, r = .error e → Broke w := by
  intro w hw
  have hunread := hw.unread
  unfold World.readFrame
  simp only [Env.watched]
  rcases E.receive w.stream.id w.env.1 with ⟨e | u, after⟩
  · exact ⟨_, rfl, hw.lose after _, fun _ _ => rfl⟩
  · cases hinbox : w.stream.inbox with
    | nil =>
      rw [hinbox] at hunread
      simp only [hunread]
      exact ⟨_, rfl, hw.lose after _, fun _ _ => rfl⟩
    | cons frame rest =>
      rw [hinbox] at hunread
      by_cases hfits : frame.length ≤ maxFrameLen
      · simp only [hunread, if_pos hfits]
        exact ⟨_, rfl, ⟨hw.endpoint, rfl, hw.failed⟩, fun e h => by cases h⟩
      · simp only [hunread, if_neg hfits]
        exact ⟨_, rfl, hw.lose after _, fun _ _ => rfl⟩

/-- A report is nothing to write down: what is known of the scene and of the journal is kept. -/
theorem report_seen {K : World (σ × Journal) → Prop}
    (hK : ∀ (w : World (σ × Journal)) (after : σ), K w → K ⟨w.toScene, after, w.env.2⟩)
    (r : Report) : Keeps K (report E.watched r) := by
  refine Keeps.change fun w hw => ?_
  split
  · exact hK w _ hw
  · exact hw

/-- **One step over a connection.** What is written down follows it. -/
theorem seen_framewise : Framewise E.watched (Seen before) fun _ => True where
  writeFrame _ sent := (writeFrame_seen _ sent).keeps_of fun _ _ hw => hw.1
  readFrame := readFrame_seen.keeps_of fun _ _ hw => hw.1
  report r := report_seen (fun _ _ hw => ⟨hw.endpoint, hw.unread, hw.failed⟩) r
  enter := Keeps.change fun _ hw => ⟨hw.endpoint, hw.unread, hw.failed⟩

/-- A connection that has just been made the live one has not broken. -/
theorem seen_install (s : Scene) (ep : String) (ordered : List String) (env : σ)
    (failed : List String) : Seen failed ⟨s.install ep ordered, env, ep, [], false, failed⟩ :=
  ⟨rfl, rfl, fun _ => by simp⟩

end Seen

/-- The order of a re-dial is nothing to write down. -/
theorem redialOrder_watched {E : Env σ} (w : World (σ × Journal)) :
    (redialOrder E.watched w).2.env.2 = w.env.2 := by
  unfold redialOrder
  split
  · rfl
  · dsimp only
    rw [(orderByLatency_unseen w.client.endpoints w.env).2]

end Skaidb

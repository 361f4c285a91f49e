import Skaidb.Driver.Lasting
import Skaidb.Driver.SessionBinding
import Skaidb.Driver.Watch

/-!
# What an I/O error says about the endpoints

A statement whose connection breaks is tried once more: endpoints are dialled until one accepts,
the session is entered again, and the statement is sent to that endpoint only. When the second
attempt fails with an I/O error, the endpoints behind the one that accepted have not been tried.
-/

namespace Skaidb

open Program Client

variable {σ : Type} {E : Env σ}

/-! ## Dialling in turn -/

/-- How dialling in turn ends: the endpoints that refused, the one that accepted, and those that
were left. -/
structure Reached (σ : Type) where
  /-- The endpoints that refused, in order. -/
  refused : List String
  /-- The endpoint that accepted. -/
  endpoint : String
  /-- The endpoints behind it. -/
  left : List String
  /-- What lies outside the driver after the dials. -/
  env : σ

/-- All endpoints of a re-dial in the order of dialling, those behind the one reached included. -/
def Reached.order (r : Reached σ) : List String := r.refused ++ r.endpoint :: r.left

/-- Dial endpoints in turn until one accepts; what is left of the list is not dialled. -/
def Env.reach (E : Env σ) : List String → σ → Option (Reached σ)
  | [], _ => none
  | ep :: rest, env =>
    match E.dial ep env with
    | (.ok (), after) => some ⟨[], ep, rest, after⟩
    | (.error _, after) => (E.reach rest after).map fun r => { r with refused := ep :: r.refused }

/-- The endpoints are the ones that were to be dialled. -/
theorem reach_order {eps : List String} {env : σ} {r : Reached σ} (h : E.reach eps env = some r) :
    r.order = eps := by
  induction eps generalizing env r with
  | nil => cases h
  | cons ep rest ih =>
    unfold Env.reach at h
    split at h
    · obtain rfl := Option.some.inj h
      rfl
    · obtain ⟨r', hr', rfl⟩ := Option.map_eq_some_iff.mp h
      exact congrArg (ep :: ·) (ih hr')

/-- The observer has written down the endpoints that refused. -/
theorem reach_watched (eps : List String) (env : σ) (j : Journal) :
    E.watched.reach eps (env, j) = (E.reach eps env).map fun r =>
      { r with env := (r.env, ⟨r.endpoint, [], false, r.refused.reverse ++ j.failed⟩) } := by
  induction eps generalizing env j with
  | nil => rfl
  | cons ep rest ih =>
    unfold Env.reach
    cases hdial : E.dial ep env with
    | mk outcome after =>
      cases outcome with
      | ok u => simp [Env.watched, hdial]
      | error text =>
        have hwatched : E.watched.dial ep (env, j) = (.error text, after, j.refuse ep) := by
          simp [Env.watched, hdial]
        rw [hwatched]
        dsimp only
        rw [ih, Option.map_map, Option.map_map]
        simp [Function.comp_def, Journal.refuse]

/-- A client that belongs to no pool reports nothing. -/
theorem report_unpooled {w : World σ} (hpooled : w.client.pooled = false) (r : Report) :
    report E r w = (.ok (), w) := by
  simp only [report, change, hpooled, Bool.false_eq_true, if_false]

/-- Dialling in turn fails when all endpoints refuse, and else enters the session again on the
connection to the one that accepted. -/
theorem redial_reached {w : World σ} (hpooled : w.client.pooled = false) (ordered eps : List String)
    (last : String) :
    (E.reach eps w.env = none →
        ∃ msg, (redial E ordered eps last w).1 = .error (.noEndpoint msg)) ∧
      ∀ r, E.reach eps w.env = some r → redial E ordered eps last w =
        replaySession E ⟨w.toScene.install r.endpoint ordered, r.env⟩ := by
  induction eps generalizing w last with
  | nil => exact ⟨fun _ => ⟨last, rfl⟩, fun r h => nomatch h⟩
  | cons ep rest ih =>
    unfold Env.reach redial
    cases hdial : E.dial ep w.env with
    | mk outcome after =>
      have hdialed : dial E ep w = (.ok outcome, { w with env := after }) := by
        unfold dial
        rw [hdial]
      rw [bind_apply, hdialed]
      cases outcome with
      | ok u =>
        have hreport : report E (.moved ep) ⟨w.toScene.install ep ordered, after⟩ =
            (.ok (), ⟨w.toScene.install ep ordered, after⟩) :=
          report_unpooled (w := ⟨w.toScene.install ep ordered, after⟩) hpooled _
        refine ⟨fun h => (nomatch h), fun r h => ?_⟩
        obtain rfl := Option.some.inj h
        simp only [install, change, bind_apply, hreport]
      | error text =>
        have hreport : report E (.dialFailed ep) { w with env := after } =
            (.ok (), { w with env := after }) :=
          report_unpooled (w := { w with env := after }) hpooled _
        have hrest := ih (w := { w with env := after }) hpooled (ep ++ ": " ++ text)
        simp only [bind_apply, hreport, Option.map_eq_none_iff, Option.map_eq_some_iff]
        refine ⟨hrest.1, ?_⟩
        rintro r ⟨r', hr', rfl⟩
        exact hrest.2 r' hr'

/-! ## Requests that fit a frame -/

/-- The payload is not above the frame limit. -/
def Sent.Fits (sent : Sent) : Prop := sent.payload.length ≤ maxFrameLen

/-- The statement that enters the session database fits a frame. -/
def Client.UseFits (c : Client) : Prop := ∀ db, c.database = some db → FitsQuery (useSql db)

/-- Whatever a reply says, it is not read as an I/O error of the connection. -/
theorem interpret_ne_io (frame : Frame) (e : IoError) : interpret frame ≠ .error (.io e) := by
  unfold interpret
  split <;> simp

/-- **One round trip, watched.** A request that is answered fits a frame, and one that fits and
fails with an I/O error breaks the connection. -/
theorem ask_fits {before : List String} (purpose : Purpose) (sent : Sent) :
    Triple (Seen before) (ask E.watched purpose sent) fun r w => Seen before w ∧
      (∀ resp, r = .ok resp → sent.Fits) ∧ ∀ e, r = .error (.io e) → sent.Fits → Broke w := by
  -- What is known of the frame, and stays known when its outcome is reported.
  let Known (frame : Except IoError Frame) (w : World (σ × Journal)) : Prop :=
    Seen before w ∧ (∀ payload, frame = .ok payload → sent.Fits) ∧
      ∀ e, frame = .error e → sent.Fits → Broke w
  have hexchange : Returns (Seen before) (exchangeFrames E.watched purpose sent) Known := by
    refine Returns.bind (writeFrame_seen purpose sent) fun wrote => ?_
    cases wrote with
    | error e =>
      refine Triple.pure fun w hw => ⟨_, rfl, hw.1, (fun _ h => by cases h), fun e' h hfits => ?_⟩
      exact hw.2.2 e rfl hfits
    | ok u =>
      refine (Triple.assume (P := Seen before) (p := sent.Fits) fun hfits => ?_).conseq
        (fun w hw => ⟨hw.1, hw.2.1 rfl⟩) fun _ _ hw => hw
      exact readFrame_seen.conseq (fun _ hw => hw) fun r w ⟨frame, hframe, hw⟩ =>
        ⟨frame, hframe, hw.1, fun _ _ => hfits, fun e he _ => hw.2 e he⟩
  have hobserved (frame : Except IoError Frame) : Keeps (Known frame) (observed E.watched frame) :=
    observed_keeps (report_seen fun _ _ hw =>
      ⟨⟨hw.1.endpoint, hw.1.unread, hw.1.failed⟩, hw.2⟩) frame
  refine Returns.bind hexchange fun frame => ?_
  refine Triple.bind (R := fun r w => Known frame w ∧ r = frame.mapError .io) ?_ (fun payload => ?_)
    fun e w hw => ⟨hw.1.1, (fun _ h => by cases h), fun e' h hfits => ?_⟩
  · exact fun w hw => ⟨hobserved frame w hw, observed_fst frame w⟩
  · refine Triple.settle fun w hw => ⟨hw.1.1, fun resp _ => ?_, fun e h => ?_⟩
    · cases hframe : frame with
      | ok payload' => exact hw.1.2.1 payload' hframe
      | error e =>
        rw [hframe] at hw
        cases hw.2
    · exact absurd h (interpret_ne_io payload e)
  · cases hframe : frame with
    | ok payload =>
      rw [hframe] at hw
      cases hw.2
    | error e'' => exact hw.1.2.2 e'' hframe hfits

/-- A request above the limit is nothing to write down. -/
theorem ask_refused {purpose : Purpose} {sent : Sent} (hlong : ¬ sent.Fits)
    (w : World (σ × Journal)) : (ask E.watched purpose sent w).2.env.2 = w.env.2 := by
  have hrefused : Keeps (fun w' : World (σ × Journal) => w'.env.2 = w.env.2)
      (ask E.watched purpose sent) := by
    refine Triple.bind (R := fun _ w' => w'.env.2 = w.env.2) ?_ (fun frame => ?_) fun _ _ hw => hw
    · refine Returns.bind (Struck.refused (not_le.mp hlong) _) fun wrote => ?_
      refine Triple.assume fun hwrote => ?_
      obtain ⟨e, rfl⟩ := hwrote
      exact Triple.pure fun _ hw => hw
    · exact Keeps.bind (observed_keeps (report_seen fun _ _ hw => hw) frame)
        fun _ => Keeps.settle _ _
  exact hrefused w rfl

/-- **One attempt, watched.** After an I/O error the connection has broken if the statement fits a
frame, and only if it had if not. -/
theorem tryExecute_io {before : List String} {sql : String} {consistency : Consistency}
    {w : World (σ × Journal)} (hseen : Seen before w) {e : IoError}
    (h : (tryExecute E.watched sql consistency w).1 = .error (.io e)) :
    Broke (tryExecute E.watched sql consistency w).2 ↔
      (Sent.request ⟨sql, consistency⟩).Fits ∨ Broke w := by
  by_cases hfits : (Sent.request ⟨sql, consistency⟩).Fits
  · have hbroke := (ask_fits (E := E) .statement (.request ⟨sql, consistency⟩) w hseen).2.2 e h
    exact ⟨fun _ => .inl hfits, fun _ => hbroke hfits⟩
  · have hjournal : (tryExecute E.watched sql consistency w).2.env.2 = w.env.2 :=
      ask_refused hfits w
    rw [Broke, hjournal]
    exact ⟨.inr, fun hbroke => hbroke.resolve_left hfits⟩

/-- A text takes at most four bytes for each of its characters. -/
theorem length_utf8_le (s : String) : (utf8 s).length ≤ 4 * s.toList.length := by
  have hchars (text : List Char) :
      (text.flatMap String.utf8EncodeChar).length ≤ 4 * text.length := by
    induction text with
    | nil => exact le_rfl
    | cons c text ih =>
      have hc := c.utf8Size_le_four
      rw [List.flatMap_cons, List.length_append, String.length_utf8EncodeChar, List.length_cons]
      omega
  rw [utf8_eq_flatMap]
  exact hchars s.toList

/-- A scan budget takes at most twenty characters in the statement that sets it. -/
theorem length_toString_le (rows : UInt64) : (toString rows.toNat).toList.length ≤ 20 := by
  have htext : (toString rows.toNat).toList = Nat.toDigits 10 rows.toNat := by
    rw [Nat.toString_eq_repr, Nat.repr_eq_ofList_toDigits, String.toList_ofList]
  have hlt := rows.toNat_lt
  rw [htext, Nat.length_toDigits_le_iff (by decide) (by decide)]
  omega

/-- A short number is set by a short statement. -/
theorem fitsQuery_of_length {digits : String} (h : digits.toList.length ≤ 20) :
    FitsQuery ("SET SCAN BUDGET ROWS " ++ digits) := by
  have hlen := length_utf8_le ("SET SCAN BUDGET ROWS " ++ digits)
  have hword : "SET SCAN BUDGET ROWS ".toList.length = 21 := rfl
  have hmax : maxFrameLen = 64 * 1024 * 1024 := rfl
  rw [String.toList_append, List.length_append, hword] at hlen
  unfold FitsQuery
  omega

/-- The statement that sets a scan budget fits a frame. -/
theorem fitsQuery_budgetSql (rows : UInt64) : FitsQuery (budgetSql rows) :=
  fitsQuery_of_length (length_toString_le rows)

/-- A watched world whose client remembers a database. -/
def SeenBound (before : List String) (database : Option String) (w : World (σ × Journal)) : Prop :=
  Seen before w ∧ w.client.database = database

/-- When a round trip of the replay succeeds, its statement fits a frame; when it does fit, an I/O
error breaks the connection. -/
theorem rebind_fits {before : List String} {database : Option String} {sql : String}
    {consistency : Consistency} :
    Triple (SeenBound before database)
      (roundtrip E.watched .rebind (.query sql consistency)) fun r w =>
        SeenBound before database w ∧ (∀ resp, r = .ok resp → FitsQuery sql) ∧
          ∀ e, r = .error (.io e) → FitsQuery sql → Broke w := by
  intro w hw
  have hfits := ask_fits (E := E) .rebind (.client (.query sql consistency)) w hw.1
  have hlen : (Sent.client (.query sql consistency)).Fits ↔ FitsQuery sql := by
    rw [Sent.Fits, length_query, FitsQuery]
  rw [hlen] at hfits
  have hkeeps : Triple (On fun s => s.client.database = database)
      (ask E.watched .rebind (.client (.query sql consistency)))
        fun _ => On fun s => s.client.database = database :=
    ask_triple fun s r s' hs hasked => hasked.remembers.1.trans hs
  exact ⟨⟨hfits.1, hkeeps w hw.2⟩, hfits.2⟩

/-- What entering a session shows about the statement that enters the database: it fits a frame
when the session is entered, and when it fits, an I/O error breaks the connection. -/
def EntersFit (database : Option String) (r : Except DriverError Unit) (w : World (σ × Journal)) :
    Prop :=
  (r = .ok () → ∀ db, database = some db → FitsQuery (useSql db)) ∧
    ∀ e, r = .error (.io e) → (∀ db, database = some db → FitsQuery (useSql db)) → Broke w

/-- What `applyDatabase` shows in a watched world about the statement that enters the database, when
it succeeds and when it fails. -/
theorem applyDatabase_fits {before : List String} (database : Option String) :
    Triple (SeenBound before database) (applyDatabase E.watched .rebind) fun r w =>
      SeenBound before database w ∧ EntersFit database r w := by
  refine Triple.reads fun client => ?_
  refine (Triple.assume (P := SeenBound before database)
    (p := client.database = database) fun hclient => ?_).conseq
      (fun w hw => ⟨hw.1, hw.2 ▸ hw.1.2⟩) fun _ _ hw => hw
  cases hdb : client.database with
  | none =>
    rw [hdb] at hclient
    subst hclient
    refine Triple.pure fun w hw => ⟨hw, fun _ db h => ?_, fun e h => ?_⟩
    · cases h
    · cases h
  | some db =>
    rw [hdb] at hclient
    subst hclient
    refine Triple.bind rebind_fits (fun resp => Triple.pure fun w hw => ?_) fun e w hw => ?_
    · refine ⟨hw.1, fun _ db' hdb' => ?_, fun e h => ?_⟩
      · obtain rfl := Option.some.inj hdb'
        exact hw.2.1 resp rfl
      · cases h
    · refine ⟨hw.1, fun h => ?_, fun e' he hfits => ?_⟩
      · cases h
      · exact hw.2.2 e' (by simpa using he) (hfits db rfl)

/-- Tightening the scan budget, in a database whose name fits. -/
theorem applyScanBudget_fits {before : List String} {database : Option String}
    (hfits : ∀ db, database = some db → FitsQuery (useSql db)) :
    Triple (SeenBound before database) (applyScanBudget E.watched .rebind)
      (EntersFit database) := by
  refine Triple.reads fun client => ?_
  by_cases hzero : client.scanBudgetRows = 0
  · rw [if_pos hzero]
    refine Triple.pure fun w _ => ⟨fun _ => hfits, fun e h => ?_⟩
    cases h
  · rw [if_neg hzero]
    refine (Triple.bind rebind_fits (fun resp => Triple.pure fun w hw => ?_)
      fun e w hw => ?_).conseq (fun w hw => hw.1) fun _ _ hw => hw
    · refine ⟨fun _ => hfits, fun e h => ?_⟩
      cases h
    · refine ⟨fun _ => hfits, fun e' he _ => ?_⟩
      exact hw.2.2 e' (by simpa using he) (fitsQuery_budgetSql _)

/-- **The replay, watched.** When it succeeds, the statement that enters the database fits a
frame, and when that fits, an I/O error breaks the connection. -/
theorem replaySession_fits {before : List String} {w : World (σ × Journal)}
    (hseen : Seen before w) :
    ((replaySession E.watched w).1 = .ok () → w.client.UseFits) ∧
      ∀ e, (replaySession E.watched w).1 = .error (.io e) → w.client.UseFits →
        Broke (replaySession E.watched w).2 := by
  obtain ⟨database, hdatabase⟩ : ∃ database, w.client.database = database := ⟨_, rfl⟩
  have huse : w.client.UseFits ↔ ∀ db, database = some db → FitsQuery (useSql db) := by
    rw [Client.UseFits, hdatabase]
  rw [huse]
  suffices h : Triple (SeenBound before database) (replaySession E.watched)
      (EntersFit database) from h w ⟨hseen, hdatabase⟩
  refine Returns.bind (R := fun _ => SeenBound before database) ?_ fun _ => ?_
  · intro w hw
    obtain ⟨u, hu, hbound⟩ := sendHello_returns (E := E.watched)
      (P := fun s => s.client.database = database) (Q := fun s => s.client.database = database)
      (fun s r s' hs hasked => hasked.remembers.1.trans hs) w hw.2
    exact ⟨u, hu, seen_framewise.sendHello trivial w hw.1, hbound⟩
  · refine Triple.bind (applyDatabase_fits database) (fun _ => ?_) fun e w hw => hw.2
    refine (Triple.assume (p := ∀ db, database = some db → FitsQuery (useSql db))
      fun hfits => ?_).conseq (fun w hw => ⟨hw.1, hw.2.1 rfl⟩) fun _ _ hw => hw
    refine Triple.bind (applyScanBudget_fits hfits) (fun _ => ?_) fun e w hw => hw
    exact Triple.change fun w hw => ⟨hw.1, fun e h => by cases h⟩

/-! ## A call that fails twice -/

/-- The order of a re-dial holds the endpoints of the client. -/
theorem redialOrder_perm {w : World σ} (hpooled : w.client.pooled = false) :
    ∃ order env, redialOrder E w = (.ok order, { w with env := env }) ∧
      order.Perm w.client.endpoints := by
  have hprobe (eps : List String) (env : σ) : (probeAll E eps env).1.map Prod.snd = eps := by
    induction eps generalizing env with
    | nil => rfl
    | cons ep rest ih => simp only [probeAll, List.map_cons, ih]
  have horder : (orderByLatency E w.client.endpoints w.env).1.Perm w.client.endpoints := by
    unfold orderByLatency
    split
    · exact List.Perm.refl _
    · have hperm := (List.perm_insertionSort latencyLe
        (probeAll E w.client.endpoints w.env).1).map Prod.snd
      rwa [hprobe] at hperm
  unfold redialOrder
  rw [if_neg (by simp [hpooled])]
  exact ⟨_, _, rfl, (List.perm_insertionSort _ _).trans horder⟩

section Calls

variable (E) (sql : String) (consistency : Consistency) (w : World σ)

/-- How the re-dial of a call ends whose first attempt failed. -/
def redialed : Option (Reached σ) :=
  match redialOrder E (tryExecute E sql consistency w).2 with
  | (.ok order, lost) => E.reach order lost.env
  | (.error _, _) => none

/-- The world with the connection to the endpoint that was reached. -/
def onReached (r : Reached σ) : World σ :=
  ⟨(tryExecute E sql consistency w).2.toScene.install r.endpoint r.order, r.env⟩

/-- How a call fails with an I/O error after its re-dial. -/
inductive GivesUp (r : Reached σ) : World σ → Prop
  /-- The session cannot be entered again. -/
  | replay {e : IoError}
    (h : (replaySession E (onReached E sql consistency w r)).1 = .error (.io e)) :
    GivesUp r (replaySession E (onReached E sql consistency w r)).2
  /-- The second attempt fails. -/
  | retry {w' : World σ} {e : IoError}
    (h : replaySession E (onReached E sql consistency w r) = (.ok (), w'))
    (hagain : (tryExecute E sql consistency w').1 = .error (.io e)) :
    GivesUp r (tryExecute E sql consistency w').2

end Calls

/-- A method with a retry is the retry when the first attempt fails in its transport. -/
theorem orRetry_apply {α : Type} (first again : Driver σ α) (w : World σ) :
    orRetry first again w = match (first w).1 with
      | .error (.io _) => again (first w).2
      | other => (other, (first w).2) := by
  unfold orRetry
  rw [bind_apply]
  rcases hfirst : first w with ⟨r, w'⟩
  have hattempt : attempt first w = (.ok r, w') := by rw [attempt, hfirst]
  rw [hattempt]
  rcases r with (_ | _ | _ | _ | _ | _) | _ <;> rfl

/-- A call that fails has failed before its report. -/
theorem executeWith_error {sql : String} {consistency : Consistency} {w : World σ}
    {e : DriverError} (h : (executeWith E sql consistency w).1 = .error e) :
    executeWith E sql consistency w =
      orRetry (tryExecute E sql consistency) (do
        Client.reconnect E
        tryExecute E sql consistency) w := by
  unfold executeWith at h ⊢
  rw [bind_apply] at h ⊢
  generalize orRetry (tryExecute E sql consistency) _ w = outcome at h ⊢
  obtain ⟨_ | resp, w'⟩ := outcome
  · rfl
  · cases h

/-- A round trip changes nothing of the client but its stream. -/
theorem ask_client (purpose : Purpose) (sent : Sent) (w : World σ) :
    (ask E purpose sent w).2.client =
      { w.client with stream := (ask E purpose sent w).2.client.stream } := by
  refine ask_triple (P := fun s => s = w.toScene) (Q := fun _ s =>
    s.client = { w.client with stream := s.client.stream }) (fun s r s' hs hasked => ?_) w rfl
  subst hs
  cases hasked <;> rfl

/-- Only an I/O error lets a method with a retry fail with one. -/
theorem orRetry_io {α : Type} {first again : Driver σ α} {w : World σ} {e : IoError}
    (h : (orRetry first again w).1 = .error (.io e)) :
    (∃ e', (first w).1 = .error (.io e')) ∧ orRetry first again w = again (first w).2 := by
  rw [orRetry_apply] at h ⊢
  split at h
  · next e' hfirst => exact ⟨⟨e', hfirst⟩, rfl⟩
  · next hother => exact absurd h (hother e)

/-- The first attempt leaves a client without a pool. -/
theorem tryExecute_pooled (sql : String) (consistency : Consistency) {w : World σ}
    (hpooled : w.client.pooled = false) :
    (tryExecute E sql consistency w).2.client.pooled = false := by
  rw [tryExecute, ask_client]
  exact hpooled

/-- **The re-dial of a call.** It fails when no endpoint is reached, and else it enters the
session there. -/
theorem reconnect_redialed (sql : String) (consistency : Consistency) {w : World σ}
    (hpooled : w.client.pooled = false) :
    (redialed E sql consistency w = none → ∃ msg,
      (Client.reconnect E (tryExecute E sql consistency w).2).1 = .error (.noEndpoint msg)) ∧
    ∀ r, redialed E sql consistency w = some r →
      Client.reconnect E (tryExecute E sql consistency w).2 =
        replaySession E (onReached E sql consistency w r) := by
  have hlost := tryExecute_pooled (E := E) sql consistency hpooled
  obtain ⟨order, env, horder, -⟩ := redialOrder_perm (E := E) hlost
  obtain ⟨hnone, hsome⟩ := redial_reached (E := E)
    (w := { (tryExecute E sql consistency w).2 with env := env }) hlost order order ""
  have hredialed : redialed E sql consistency w = E.reach order env := by
    rw [redialed, horder]
  rw [hredialed, Client.reconnect, bind_apply, horder]
  constructor
  · exact hnone
  · intro r hr
    rw [onReached, reach_order hr]
    exact hsome r hr

/-- **How a call fails with an I/O error.** Its first attempt fails, an endpoint is reached, and
the session cannot be entered there or the second attempt fails. -/
theorem executeWith_io {sql : String} {consistency : Consistency} {w : World σ}
    (hpooled : w.client.pooled = false) {e : IoError}
    (h : (executeWith E sql consistency w).1 = .error (.io e)) :
    ∃ r, redialed E sql consistency w = some r ∧
      (∃ e', (tryExecute E sql consistency w).1 = .error (.io e')) ∧
      GivesUp E sql consistency w r (executeWith E sql consistency w).2 := by
  have hcall := executeWith_error h
  rw [hcall] at h
  obtain ⟨hfirst, hagain⟩ := orRetry_io h
  rw [hagain] at h
  rw [hcall, hagain]
  obtain ⟨hnone, hsome⟩ := reconnect_redialed (E := E) sql consistency hpooled
  rw [bind_apply] at h ⊢
  cases hredialed : redialed E sql consistency w with
  | none =>
    obtain ⟨msg, hmsg⟩ := hnone hredialed
    rcases hreconnect : Client.reconnect E (tryExecute E sql consistency w).2 with ⟨outcome, w'⟩
    rw [hreconnect] at h hmsg
    obtain rfl : outcome = .error (.noEndpoint msg) := hmsg
    cases h
  | some r =>
    refine ⟨r, rfl, hfirst, ?_⟩
    rw [hsome r hredialed] at h ⊢
    rcases hreplay : replaySession E (onReached E sql consistency w r) with ⟨e' | u, w'⟩
    · rw [hreplay] at h
      obtain rfl : e' = .io e := Except.error.inj h
      have hio : (replaySession E (onReached E sql consistency w r)).1 = .error (.io e) := by
        rw [hreplay]
      have hgives := GivesUp.replay hio
      rw [hreplay] at hgives
      exact hgives
    · rw [hreplay] at h
      exact GivesUp.retry hreplay h

/-! ## The endpoints that fail -/

/-- The endpoints that refuse a dial or break a connection during a call. -/
def failures (E : Env σ) (sql : String) (consistency : Consistency) (w : World σ) : List String :=
  (executeWith E.watched sql consistency w.watched).2.env.2.failed

section Failures

variable {sql : String} {consistency : Consistency} {w : World σ}

/-- The first attempt at a statement does the same whether or not it is watched. -/
theorem tryExecute_watched : (tryExecute E.watched sql consistency w.watched).2.unwatched =
    (tryExecute E sql consistency w).2 :=
  (ask_unseen _ _ w.watched).2

/-- The re-dial after a failed attempt does the same whether or not it is watched. -/
theorem redialed_watched : redialed E.watched sql consistency w.watched =
    (redialed E sql consistency w).map fun r => { r with env := (r.env, ⟨r.endpoint, [], false,
      r.refused.reverse ++ (tryExecute E.watched sql consistency w.watched).2.env.2.failed⟩) } := by
  have hlost : (tryExecute E.watched sql consistency w.watched).2.unwatched =
      (tryExecute E sql consistency w).2 := tryExecute_watched
  unfold redialed
  rw [← hlost]
  generalize (tryExecute E.watched sql consistency w.watched).2 = lost
  obtain ⟨hvalue, hstate⟩ := redialOrder_unseen (E := E) lost
  have hjournal := redialOrder_watched (E := E) lost
  rcases hwatched : redialOrder E.watched lost with ⟨r', w'⟩
  rcases hplain : redialOrder E lost.unwatched with ⟨r, w''⟩
  rw [hwatched] at hvalue hstate hjournal
  rw [hplain] at hvalue hstate
  obtain rfl : r' = r := hvalue
  obtain rfl : w'.unwatched = w'' := hstate
  cases r' with
  | error e => rfl
  | ok order =>
    have henv : w'.env = (w'.unwatched.env, lost.env.2) := Prod.ext rfl hjournal
    dsimp only
    rw [henv]
    exact reach_watched _ _ _

/-- What is kept over one connection is kept after the re-dial. -/
theorem GivesUp.keeps {K : World σ → Prop} (hK : Framewise E K fun _ => True) {r : Reached σ}
    {w' : World σ} (h : GivesUp E sql consistency w r w')
    (hw : K (onReached E sql consistency w r)) : K w' := by
  have hreplay := hK.replaySession trivial trivial _ hw
  cases h with
  | replay => exact hreplay
  | retry hreplayed =>
    rw [hreplayed] at hreplay
    exact hK.ask trivial _ _ hreplay

/-- The connection to the endpoint that was reached has not broken yet. -/
theorem seen_onReached {r : Reached (σ × Journal)}
    (hr : redialed E.watched sql consistency w.watched = some r) :
    Seen (r.refused.reverse ++ (tryExecute E.watched sql consistency w.watched).2.env.2.failed)
      (onReached E.watched sql consistency w.watched r) := by
  rw [redialed_watched, Option.map_eq_some_iff] at hr
  obtain ⟨r', -, rfl⟩ := hr
  exact seen_install _ _ _ _ _

/-- The endpoint of the connection does not change while it lasts. -/
theorem connected_framewise (ep : String) :
    Framewise E (On fun s => s.client.connected = ep) fun _ => True := by
  have h : Stepwise E (fun s => s.client.connected = ep) fun _ => True :=
    ⟨fun _ _ hs _ => hs, fun _ _ _ _ hs _ _ _ => hs, fun _ _ _ hs _ => hs, fun _ hs => hs⟩
  exact h.framewise

/-- **What fails during a call.** After an I/O error these are the endpoints that refused, the
one that was lost if its connection has broken, and the one that was reached if its has. -/
theorem mem_failures (hpooled : w.client.pooled = false) {e : IoError}
    (h : (executeWith E sql consistency w).1 = .error (.io e)) {r : Reached (σ × Journal)}
    (hr : redialed E.watched sql consistency w.watched = some r) (ep : String) :
    ep ∈ failures E sql consistency w ↔ ep ∈ r.refused ∨
      Broke (tryExecute E.watched sql consistency w.watched).2 ∧ ep = w.client.connected ∨
      Broke (executeWith E.watched sql consistency w.watched).2 ∧ ep = r.endpoint := by
  obtain ⟨hvalue, -⟩ := executeWith_unseen (E := E) sql consistency w.watched
  obtain ⟨r', hr', -, hgives⟩ := executeWith_io (w := w.watched) hpooled (hvalue.trans h)
  obtain rfl : r = r' := Option.some.inj (hr.symm.trans hr')
  -- Before the re-dial only the lost endpoint may have failed.
  have hlost : Seen [] (tryExecute E.watched sql consistency w.watched).2 :=
    seen_framewise.ask trivial _ _ (seen_watched w)
  have hconnected : (tryExecute E.watched sql consistency w.watched).2.client.connected =
      w.client.connected := by
    rw [tryExecute, ask_client]
    rfl
  -- After it, those and the ones that refused, and the reached one once its connection has broken.
  have hseen := hgives.keeps seen_framewise (seen_onReached hr)
  have hreached := hgives.keeps (connected_framewise r.endpoint) rfl
  have hfailed := hseen.failed ep
  have hbefore := hlost.failed ep
  rw [hconnected, or_iff_right List.not_mem_nil] at hbefore
  rw [hreached, List.mem_append, List.mem_reverse, hbefore, or_assoc] at hfailed
  exact hfailed

variable (E sql consistency w) in
/-- The connection to the endpoint that was reached breaks while the session is entered again. -/
def BreaksEntering : Prop :=
  ∃ r, redialed E.watched sql consistency w.watched = some r ∧
    Broke (replaySession E.watched (onReached E.watched sql consistency w.watched r)).2

variable (E sql consistency w) in
/-- The condition under which an I/O error means that every endpoint failed: each endpoint from
the one reached on is one that refused before, or the one that was lost if the statement fits a
frame, or the one reached, if nothing is above the frame limit or its connection breaks while the
session is entered again. -/
def Covered : Prop :=
  ∀ r, redialed E sql consistency w = some r → ∀ ep ∈ r.endpoint :: r.left,
    ep ∈ r.refused ∨
      (Sent.request ⟨sql, consistency⟩).Fits ∧ ep = w.client.connected ∨
      ((Sent.request ⟨sql, consistency⟩).Fits ∧ w.client.UseFits ∨
        BreaksEntering E sql consistency w) ∧ ep = r.endpoint

/-- The endpoints of a re-dial are those of the client. -/
theorem redialed_perm (hpooled : w.client.pooled = false) {r : Reached σ}
    (hr : redialed E sql consistency w = some r) : r.order.Perm w.client.endpoints := by
  have hclient := ask_client (E := E) .statement (.request ⟨sql, consistency⟩) w
  have hlost := tryExecute_pooled (E := E) sql consistency hpooled
  have hendpoints : (tryExecute E sql consistency w).2.client.endpoints = w.client.endpoints := by
    rw [tryExecute, hclient]
  obtain ⟨order, env, horder, hperm⟩ := redialOrder_perm (E := E) hlost
  rw [redialed, horder] at hr
  rw [reach_order hr, ← hendpoints]
  exact hperm

/-- When a call gives up, the connection to the reached endpoint has broken, unless a request is
above the frame limit and the connection lasted while the session was entered. -/
theorem GivesUp.broke {r : Reached (σ × Journal)} {w' : World (σ × Journal)}
    (hr : redialed E.watched sql consistency w.watched = some r)
    (h : GivesUp E.watched sql consistency w.watched r w') :
    Broke w' ↔ (Sent.request ⟨sql, consistency⟩).Fits ∧ w.client.UseFits ∨
      BreaksEntering E sql consistency w := by
  have hdatabase : (onReached E.watched sql consistency w.watched r).client.database =
      w.client.database := by
    change (tryExecute E.watched sql consistency w.watched).2.client.database = _
    rw [tryExecute, ask_client]
    rfl
  have huse : (onReached E.watched sql consistency w.watched r).client.UseFits ↔
      w.client.UseFits := by
    rw [Client.UseFits, hdatabase, Client.UseFits]
  have hbreaks : BreaksEntering E sql consistency w ↔
      Broke (replaySession E.watched (onReached E.watched sql consistency w.watched r)).2 := by
    constructor
    · rintro ⟨r', hr', hbroke⟩
      obtain rfl : r = r' := Option.some.inj (hr.symm.trans hr')
      exact hbroke
    · exact fun hbroke => ⟨r, hr, hbroke⟩
  have hseen := seen_onReached hr
  obtain ⟨hok, hio⟩ := replaySession_fits hseen
  rw [huse] at hok hio
  rw [hbreaks]
  cases h with
  | @replay e hreplay =>
    constructor
    · exact .inr
    · rintro (⟨-, hfits⟩ | hbroke)
      · exact hio e hreplay hfits
      · exact hbroke
  | retry hreplay hagain =>
    have hseen' := (seen_framewise (E := E)).replaySession trivial trivial _ hseen
    rw [hreplay] at hok hseen'
    rw [hreplay, tryExecute_io hseen' hagain, and_iff_left (hok rfl)]

/-- **An I/O error and the endpoints.** When a statement of a client without a pool fails with
an I/O error, every endpoint of the client refused a dial or broke a connection during the call
if and only if the condition holds. -/
theorem io_means_all_failed (hpooled : w.client.pooled = false) {e : IoError}
    (h : (executeWith E sql consistency w).1 = .error (.io e)) :
    (∀ ep ∈ w.client.endpoints, ep ∈ failures E sql consistency w) ↔
      Covered E sql consistency w := by
  obtain ⟨hvalue, hstate⟩ := executeWith_unseen (E := E) sql consistency w.watched
  obtain ⟨watched, hwatched, ⟨e', hfirst⟩, hgives⟩ :=
    executeWith_io (w := w.watched) hpooled (hvalue.trans h)
  -- The re-dial is the same without the observer.
  obtain ⟨r, hr, rfl⟩ := Option.map_eq_some_iff.mp (redialed_watched.symm.trans hwatched)
  have hfailures (ep : String) : ep ∈ failures E sql consistency w ↔ ep ∈ r.refused ∨
      (Sent.request ⟨sql, consistency⟩).Fits ∧ ep = w.client.connected ∨
      ((Sent.request ⟨sql, consistency⟩).Fits ∧ w.client.UseFits ∨
        BreaksEntering E sql consistency w) ∧ ep = r.endpoint := by
    have hfresh : ¬ Broke w.watched := Bool.false_ne_true
    rw [mem_failures hpooled h hwatched, tryExecute_io (seen_watched w) hfirst,
      or_iff_left hfresh, hgives.broke hwatched]
  have hperm := redialed_perm hpooled hr
  constructor
  · intro hall r' hr' ep hep
    obtain rfl : r = r' := Option.some.inj (hr.symm.trans hr')
    refine (hfailures ep).mp (hall ep (hperm.subset ?_))
    exact List.mem_append_right _ hep
  · intro hcovered ep hep
    rw [hfailures]
    rcases List.mem_append.mp (hperm.symm.subset hep) with hrefused | hrest
    · exact .inl hrefused
    · exact hcovered r hr ep hrest

/-- **Requests that fit.** When the endpoints differ and nothing is above the frame limit, the
condition says that only the lost endpoint is left behind the one reached. -/
theorem covered_iff_left (hpooled : w.client.pooled = false) (hnodup : w.client.endpoints.Nodup)
    (hfits : (Sent.request ⟨sql, consistency⟩).Fits) (huse : w.client.UseFits) :
    Covered E sql consistency w ↔
      ∀ r, redialed E sql consistency w = some r → ∀ ep ∈ r.left, ep = w.client.connected := by
  constructor
  · intro hcovered r hr ep hep
    have horder : r.order.Nodup := (redialed_perm hpooled hr).nodup_iff.mpr hnodup
    rw [Reached.order, List.nodup_append, List.nodup_cons] at horder
    obtain ⟨-, ⟨hreached, -⟩, hapart⟩ := horder
    rcases hcovered r hr ep (List.mem_cons_of_mem _ hep) with hrefused | ⟨-, hlost⟩ | ⟨-, heq⟩
    · exact absurd rfl (hapart ep hrefused ep (List.mem_cons_of_mem _ hep))
    · exact hlost
    · exact absurd (heq ▸ hep) hreached
  · intro hleft r hr ep hep
    rcases List.mem_cons.mp hep with rfl | hep
    · exact .inr (.inr ⟨.inl ⟨hfits, huse⟩, rfl⟩)
    · exact .inr (.inl ⟨hfits, hleft r hr ep hep⟩)

end Failures

/-! ## An endpoint that is not tried -/

/-- The error that a connection which is reset gives. -/
def reset : IoError := ⟨.connectionReset, "connection reset"⟩

/-- The node answers the hello, its connection is reset, and the same on the next connection. -/
def twoResets : List (Except IoError (List Frame)) :=
  [.ok [[2]], .error reset, .ok [[2]], .error reset]

/-- A client that was connected to the first of some endpoints. -/
def opened (endpoints : List String) (first : String) :
    World (List (Except IoError (List Frame))) :=
  (sendHello scripted ⟨⟨⟨endpoints, first, ⟨0, true, []⟩, .quorum, none, 0, false⟩, 1, [], true⟩,
    twoResets⟩).2

/-- Of two endpoints, only the lost one is behind the one reached. -/
theorem covered_two : Covered scripted "X" .quorum (opened ["a", "b"] "a") := by
  have hfits : (Sent.request ⟨"X", .quorum⟩).Fits := by
    unfold Sent.Fits
    decide
  have hdatabase : (opened ["a", "b"] "a").client.UseFits := by
    intro db hdb
    have hnone : (opened ["a", "b"] "a").client.database = none := rfl
    rw [hnone] at hdb
    cases hdb
  apply (covered_iff_left rfl (by decide) hfits hdatabase).mpr
  intro r hr ep hep
  have hredialed : redialed scripted "X" .quorum (opened ["a", "b"] "a") =
      some ⟨[], "b", ["a"], [.ok [[2]], .error reset]⟩ := rfl
  obtain rfl := Option.some.inj (hredialed.symm.trans hr)
  exact List.mem_singleton.mp hep

/-- With two endpoints, an I/O error of the call means that both of them have failed. -/
theorem io_means_all_failed_two :
    "a" ∈ failures scripted "X" .quorum (opened ["a", "b"] "a") ∧
      "b" ∈ failures scripted "X" .quorum (opened ["a", "b"] "a") := by
  have hall := (io_means_all_failed (w := opened ["a", "b"] "a") rfl (e := reset) rfl).mpr
    covered_two
  exact ⟨hall "a" (by decide), hall "b" (by decide)⟩

/-- Of three endpoints, the third one was not tried. -/
theorem io_without_third_endpoint :
    connectMany scripted ["a", "b", "c"] twoResets = .ok (opened ["a", "b", "c"] "a") ∧
      (executeWith scripted "X" .quorum (opened ["a", "b", "c"] "a")).1 = .error (.io reset) ∧
      "c" ∈ (opened ["a", "b", "c"] "a").client.endpoints ∧
      failures scripted "X" .quorum (opened ["a", "b", "c"] "a") = ["b", "a"] :=
  ⟨rfl, rfl, by decide, rfl⟩

end Skaidb

import Skaidb.Driver.Client

/-!
# Properties kept frame by frame

A property of the world that is kept by a frame written, a frame read and a report is kept by
everything the driver does over one connection. Only a re-dial is left out.
-/

namespace Skaidb

open Program Client

variable {σ : Type} {E : Env σ} {K : World σ → Prop}

/-- What touches a connection keeps the property when frames are written for an allowed
purpose. -/
structure Framewise (E : Env σ) (K : World σ → Prop) (allowed : Purpose → Prop) : Prop where
  /-- A frame is written. -/
  writeFrame : ∀ {purpose}, allowed purpose → ∀ sent, Keeps K (World.writeFrame E purpose sent)
  /-- A frame is read. -/
  readFrame : Keeps K (World.readFrame E)
  /-- The pool is told. -/
  report : ∀ r, Keeps K (report E r)
  /-- The replay of a session comes to its end. -/
  enter : Keeps K markEntered

/-! ## The session -/

/-- Entering the session database keeps what a round trip keeps. -/
theorem applyDatabase_keeps {purpose : Purpose}
    (hask : ∀ sql consistency, Keeps K (Client.roundtrip E purpose (.query sql consistency))) :
    Keeps K (Client.applyDatabase E purpose) := by
  refine Keeps.reads fun client => ?_
  cases client.database with
  | none => exact Keeps.pure _ _
  | some db => exact Keeps.bind (hask _ _) fun _ => Keeps.pure _ _

/-- Setting the scan budget keeps what a round trip keeps. -/
theorem applyScanBudget_keeps {purpose : Purpose}
    (hask : ∀ sql consistency, Keeps K (Client.roundtrip E purpose (.query sql consistency))) :
    Keeps K (Client.applyScanBudget E purpose) := by
  refine Keeps.reads fun client => ?_
  by_cases hzero : client.scanBudgetRows = 0
  · rw [if_pos hzero]
    exact Keeps.pure _ _
  · rw [if_neg hzero]
    exact Keeps.bind (hask _ _) fun _ => Keeps.pure _ _

/-- A transport step keeps what the reports about it keep. -/
theorem transport_keeps (hreport : ∀ r, Keeps K (report E r)) {α : Type}
    (frame : Except IoError α) : Keeps K (transport E frame) := by
  cases frame with
  | ok v => exact Keeps.pure _ _
  | error e =>
    exact Keeps.reads fun endpoint => Keeps.bind (hreport _) fun _ => Keeps.fails _ _

/-- The outcome of a request keeps what the reports about it keep. -/
theorem observed_keeps (hreport : ∀ r, Keeps K (report E r)) {α : Type}
    (frame : Except IoError α) : Keeps K (observed E frame) := by
  cases frame with
  | ok v => exact Keeps.reads fun endpoint => Keeps.bind (hreport _) fun _ => Keeps.pure _ _
  | error e => exact transport_keeps hreport _

namespace Framewise

variable {allowed : Purpose → Prop} (h : Framewise E K allowed)

include h

/-! ## One round trip -/

/-- Passing on the outcome of an operation on the transport keeps what its parts keep. -/
theorem transport {α : Type} (frame : Except IoError α) : Keeps K (Skaidb.transport E frame) :=
  transport_keeps h.report frame

/-- Passing on the outcome of a request, which tells the pool of it either way, keeps the
property. -/
theorem observed {α : Type} (frame : Except IoError α) : Keeps K (Skaidb.observed E frame) :=
  observed_keeps h.report frame

/-- Telling the pool of a statement that succeeded keeps what telling the pool keeps. -/
theorem observeStatement (sql : String) : Keeps K (Skaidb.observeStatement E sql) :=
  Keeps.reads fun _ => h.report _

/-- One request and its reply keep the property, since it is a write, a read and the report of their
outcome. -/
theorem ask {purpose : Purpose} (hp : allowed purpose) (sent : Sent) :
    Keeps K (Client.ask E purpose sent) := by
  have hexchange : Keeps K (Client.exchangeFrames E purpose sent) := by
    refine Keeps.bind (h.writeFrame hp sent) fun wrote => ?_
    cases wrote with
    | ok u => exact h.readFrame
    | error e => exact Keeps.pure _ _
  refine Keeps.bind hexchange fun frame => ?_
  exact Keeps.bind (h.observed frame) fun payload => Keeps.settle _ _

/-- A property that every frame exchanged keeps is kept by `sendHello`, whatever the server makes of
it. -/
theorem sendHello (hp : allowed .hello) : Keeps K (Client.sendHello E) := by
  refine Keeps.bind (h.writeFrame hp _) fun wrote => ?_
  cases wrote with
  | ok u => exact Keeps.bind h.readFrame fun _ => Keeps.pure _ _
  | error e => exact Keeps.pure _ _

/-- Entering the session again is made of round trips and so keeps what these keep. -/
theorem replaySession (hhello : allowed .hello) (hrebind : allowed .rebind) :
    Keeps K (Client.replaySession E) :=
  Keeps.bind (h.sendHello hhello) fun _ =>
    Keeps.bind (applyDatabase_keeps fun _ _ => h.ask hrebind _) fun _ =>
      Keeps.bind (applyScanBudget_keeps fun _ _ => h.ask hrebind _) fun _ => h.enter

/-! ## Batches -/

/-- Writing the frames of a batch keeps the property. -/
theorem writeBatch (hp : allowed .statement) (consistency : Consistency) (stmts : List String)
    (i : ℕ) : Keeps K (Client.writeBatch E consistency stmts i) := by
  induction stmts generalizing i with
  | nil => exact Keeps.pure _ _
  | cons sql stmts ih =>
    refine Keeps.bind (h.writeFrame hp _) fun sent => ?_
    exact Keeps.bind (h.transport sent) fun _ => ih (i + 1)

/-- Reading the replies of a batch keeps the property. -/
theorem readBatch (first : Bool) (n : ℕ) (out : List (Option Response)) :
    Keeps K (Client.readBatch E first n out) := by
  induction n generalizing first out with
  | zero => exact Keeps.pure _ _
  | succ n ih =>
    refine Keeps.bind h.readFrame fun frame => ?_
    refine Keeps.bind ?_ fun payload => Keeps.bind (Keeps.settle _ _) fun out => ih false out
    cases first with
    | true => exact h.observed frame
    | false => exact h.transport frame

/-- A pipelined attempt is made of writes and reads over one connection and keeps what these
keep. -/
theorem tryPipeline (hp : allowed .statement) (stmts : List String) (consistency : Consistency) :
    Keeps K (Client.tryPipeline E stmts consistency) :=
  Keeps.bind (h.writeBatch hp consistency stmts 0) fun _ =>
    Keeps.bind (h.readBatch true _ _) fun _ => Keeps.settle _ _

/-- Telling the pool of every statement of a batch keeps what telling the pool keeps. -/
theorem observeBatch (batch : List (String × Response)) :
    Keeps K (Client.observeBatch E batch) := by
  induction batch with
  | nil => exact Keeps.pure _ _
  | cons entry rest ih =>
    obtain ⟨sql, resp⟩ := entry
    cases resp with
    | error msg => exact ih
    | _ => exact Keeps.bind (h.observeStatement sql) fun _ => ih

/-! ## Streams -/

/-- Reading the first reply of a stream keeps the property. -/
theorem beginStream (sql : String) : Keeps K (Client.beginStream E sql) := by
  refine Keeps.bind h.readFrame fun frame => Keeps.bind (h.observed frame) fun payload => ?_
  cases Response.decode payload with
  | error e => exact Keeps.fails _ _
  | ok resp =>
    refine Keeps.bind ?_ fun _ => Keeps.settle _ _
    split
    · exact h.observeStatement sql
    · exact Keeps.pure _ _

/-- Fetching a frame of a stream keeps the property. -/
theorem nextFrame (s : RowStream) : Keeps K (s.nextFrame E) := by
  refine Keeps.bind h.readFrame fun frame => Keeps.attempt (h.transport frame) fun r => ?_
  cases r with
  | error e => exact Keeps.pure _ _
  | ok payload => exact Keeps.pure _ _

/-- Asking a stream for its next item is made of reads and keeps what these keep. -/
theorem nextLoop (fuel : ℕ) (s : RowStream) : Keeps K (RowStream.nextLoop E fuel s) := by
  induction fuel generalizing s with
  | zero => exact Keeps.pure _ _
  | succ fuel ih =>
    unfold RowStream.nextLoop
    split
    · exact Keeps.pure _ _
    · split
      · exact Keeps.pure _ _
      · refine Keeps.bind (h.nextFrame s) fun r => ?_
        obtain ⟨e | u, s'⟩ := r
        · exact Keeps.pure _ _
        · exact ih s'

/-- Draining a stream that is dropped is made of reads and keeps what these keep. -/
theorem dropLoop (fuel : ℕ) (s : RowStream) : Keeps K (RowStream.dropLoop E fuel s) := by
  induction fuel generalizing s with
  | zero => exact Keeps.pure _ _
  | succ fuel ih =>
    unfold RowStream.dropLoop
    split
    · exact Keeps.pure _ _
    · refine Keeps.bind (h.nextFrame s) fun r => ?_
      obtain ⟨e | u, s'⟩ := r
      · exact Keeps.pure _ _
      · exact ih s'

/-- Asking a stream for several rows keeps what asking for one of them keeps. -/
theorem pull (n : ℕ) (s : RowStream) : Keeps K (s.pull E n) := by
  induction n generalizing s with
  | zero => exact Keeps.pure _ _
  | succ n ih =>
    refine Keeps.bind (Keeps.reads fun unread => h.nextLoop _ s) fun r => ?_
    exact Keeps.bind (ih r.2) fun _ => Keeps.pure _ _

/-- Asking for rows and dropping the stream keep the property. -/
theorem drainStream (rows : ℕ) (s : RowStream) :
    Keeps K (s.pull E rows >>= fun r => r.2.drop E >>= fun _ => pure r.1) :=
  Keeps.bind (h.pull rows s) fun _ =>
    Keeps.bind (Keeps.reads fun _ => h.dropLoop _ _) fun _ => Keeps.pure _ _

end Framewise

end Skaidb

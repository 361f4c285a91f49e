import Skaidb.Driver.Correlation
import Skaidb.Proto.ResponseCodec

/-!
# Iterating a row stream

The rows of a streamed result arrive in chunks, some of which may be empty, and the last frame
says that the result is complete or why it is not. Whatever the chunks are, the iterator
hands out their rows in order, and a stream that is dropped early reads the frames that are
left. A reply with several result sets has arrived whole, and its sets are walked without
reading anything.
-/

namespace Skaidb

open Program Client

variable {σ : Type} {E : Env σ}

namespace Client.RowStream

variable (E)

/-- Ask for an item a number of times, whatever the answers are. -/
def nexts : ℕ → RowStream →
    Driver σ (List (Option (Except DriverError (List Value))) × RowStream)
  | 0, s => pure ([], s)
  | n + 1, s => do
    let (item, s) ← s.next E
    let (items, s) ← nexts n s
    pure (item :: items, s)

/-- Ask a stream for items until it has none left, as a `for` loop over it does. -/
def collect : ℕ → RowStream → Driver σ (List (Except DriverError (List Value)) × RowStream)
  | 0, s => pure ([], s)
  | fuel + 1, s => do
    let (item, s) ← s.next E
    match item with
    | none => pure ([], s)
    | some item => do
      let (items, s) ← collect fuel s
      pure (item :: items, s)

/-- Iterate each result set until there is none left. -/
def walk (fuel : ℕ) : ℕ → RowStream →
    Driver σ (List (List String × List (Except DriverError (List Value))) × RowStream)
  | 0, s => pure ([], s)
  | sets + 1, s => do
    let (items, s) ← s.collect E fuel
    match s.nextResultSet with
    | (true, next) => do
      let (rest, last) ← walk fuel sets next
      pure ((s.columns, items) :: rest, last)
    | (false, last) => pure ([(s.columns, items)], last)

end Client.RowStream

variable (E) in
/-- Read the first reply, ask for a number of items and drop the stream. -/
def streamItems (sql : String) (n : ℕ) :
    Driver σ (List String × List (Option (Except DriverError (List Value)))) := do
  let s ← beginStream E sql
  let (items, last) ← s.nexts E n
  last.drop E
  pure (s.columns, items)

variable (E) in
/-- Read the first reply, walk its result sets and drop the stream. -/
def streamSets (sql : String) (fuel n : ℕ) :
    Driver σ (List (List String × List (Except DriverError (List Value)))) := do
  let s ← beginStream E sql
  let (sets, last) ← s.walk E fuel n
  last.drop E
  pure sets

/-! ## The frames of a result -/

/-- The frames carry these chunks, and end the result or tell why it fails. -/
inductive Streamed : List Frame → List (List (List Value)) → Option String → Prop
  /-- The result is complete. -/
  | ends {frame : Frame} (h : Response.decode frame = .ok .rowsEnd) : Streamed [frame] [] none
  /-- An error in place of the next chunk ends the result. -/
  | fails {frame : Frame} {msg : String} (h : Response.decode frame = .ok (.error msg)) :
    Streamed [frame] [] (some msg)
  /-- A chunk comes before the rest. -/
  | chunk {frame : Frame} {rows : List (List Value)} {frames : List Frame}
    {chunks : List (List (List Value))} {failure : Option String}
    (h : Response.decode frame = .ok (.rowsChunk rows)) (hrest : Streamed frames chunks failure) :
    Streamed (frame :: frames) (rows :: chunks) failure

/-- The items of a result: its rows and the failure at the end. -/
def resultItems (chunks : List (List (List Value))) (failure : Option String) :
    List (Except DriverError (List Value)) :=
  chunks.flatten.map .ok ++ failure.toList.map fun msg => .error (.server msg)

/-- What a stream will hand out in a world, and the frames it leaves. -/
inductive Pending (conn : ℕ) (rest : List Frame) (s : RowStream)
    (items : List (Except DriverError (List Value))) (w : World σ) : Prop
  /-- No frame is to come. -/
  | ended (hdone : s.done = true) (hitems : items = s.chunk.map .ok)
    (hw : On (Waiting conn rest) w)
  /-- Frames are to come. -/
  | fetching (hdone : s.done = false) {frames : List Frame} {chunks : List (List (List Value))}
    {failure : Option String} (hframes : Streamed frames chunks failure)
    (hitems : items = s.chunk.map .ok ++ resultItems chunks failure)
    (hw : On (Waiting conn (frames ++ rest)) w)

/-- A frame that was read takes one step of a loop. -/
theorem Waiting.length_lt {conn fuel : ℕ} {frame : Frame} {frames : List Frame} {w w' : World σ}
    (hw : On (Waiting conn (frame :: frames)) w) (hw' : On (Waiting conn frames) w')
    (hfuel : w.stream.inbox.length < fuel + 1) : w'.stream.inbox.length < fuel := by
  rw [hw.inbox, List.length_cons] at hfuel
  rw [hw'.inbox]
  omega

section Stream

variable {conn : ℕ} {rest : List Frame} (hreceive : ∀ env, (E.receive conn env).1 = .ok ())
include hreceive

/-! ## One frame, one item -/

/-- The next frame that waits is given to the stream. -/
theorem nextFrame_waiting (s : RowStream) {frame : Frame} {w : World σ}
    (hw : On (Waiting conn (frame :: rest)) w) :
    ∃ w', s.nextFrame E w = (.ok (s.takeFrame frame), w') ∧ On (Waiting conn rest) w' := by
  obtain ⟨read, hread, hw', rfl⟩ := readFrame_waiting hreceive frame rest w hw
  refine ⟨(World.readFrame E w).2, ?_, hw'⟩
  have hframe : World.readFrame E w = (.ok (.ok frame), (World.readFrame E w).2) :=
    Prod.ext hread rfl
  rw [RowStream.nextFrame, bind_apply, hframe]
  rfl

/-- The loop of the iterator hands out the first item. -/
theorem nextLoop_pending (fuel : ℕ) {s : RowStream} {items : List (Except DriverError (List Value))}
    {w : World σ} (h : Pending conn rest s items w) (hfuel : w.stream.inbox.length < fuel) :
    ∃ s' w', RowStream.nextLoop E fuel s w = (.ok (items.head?, s'), w') ∧
      Pending conn rest s' items.tail w' := by
  induction fuel generalizing s items w with
  | zero => exact absurd hfuel (Nat.not_lt_zero _)
  | succ fuel ih =>
    rw [RowStream.nextLoop]
    cases h with
    | ended hdone hitems hw =>
      cases hchunk : s.chunk with
      | nil =>
        rw [hchunk] at hitems
        subst hitems
        dsimp only
        rw [if_pos hdone]
        exact ⟨s, w, rfl, .ended hdone (by rw [hchunk]; rfl) hw⟩
      | cons row chunk =>
        rw [hchunk] at hitems
        subst hitems
        exact ⟨{ s with chunk := chunk }, w, rfl, .ended hdone rfl hw⟩
    | fetching hdone hframes hitems hw =>
      cases hchunk : s.chunk with
      | cons row chunk =>
        rw [hchunk] at hitems
        subst hitems
        exact ⟨{ s with chunk := chunk }, w, rfl, .fetching hdone hframes rfl hw⟩
      | nil =>
        rw [hchunk, List.map_nil, List.nil_append] at hitems
        subst hitems
        have hopen : ¬ s.done = true := by simp [hdone]
        dsimp only
        rw [if_neg hopen, bind_apply]
        -- The next frame ends the result, fails it, or brings a chunk to go on with.
        cases hframes with
        | ends hdecode =>
          obtain ⟨w', hnext, hw'⟩ := nextFrame_waiting hreceive s hw
          rw [hnext, RowStream.takeFrame, hdecode]
          refine ih (.ended rfl ?_ hw') (Waiting.length_lt hw hw' hfuel)
          rw [hchunk]
          rfl
        | fails hdecode =>
          obtain ⟨w', hnext, hw'⟩ := nextFrame_waiting hreceive s hw
          rw [hnext, RowStream.takeFrame, hdecode]
          refine ⟨_, w', rfl, .ended rfl ?_ hw'⟩
          rw [hchunk]
          rfl
        | chunk hdecode hframes =>
          obtain ⟨w', hnext, hw'⟩ := nextFrame_waiting hreceive s hw
          rw [hnext, RowStream.takeFrame, hdecode]
          refine ih (.fetching hdone hframes ?_ hw') (Waiting.length_lt hw hw' hfuel)
          rw [resultItems, List.flatten_cons, List.map_append, List.append_assoc]
          rfl

/-- While its frames arrive, the iterator hands out the first of the pending items and keeps the
rest pending. -/
theorem next_pending {s : RowStream} {items : List (Except DriverError (List Value))} {w : World σ}
    (h : Pending conn rest s items w) :
    ∃ s' w', s.next E w = (.ok (items.head?, s'), w') ∧ Pending conn rest s' items.tail w' :=
  nextLoop_pending hreceive (w.stream.inbox.length + 2) h (by omega)

/-! ## Any number of items -/

/-- Asking again and again hands out the items in order, and then nothing. -/
theorem nexts_pending (n : ℕ) {s : RowStream} {items : List (Except DriverError (List Value))}
    {w : World σ} (h : Pending conn rest s items w) :
    ∃ s' w', s.nexts E n w = (.ok ((List.range n).map (items[·]?), s'), w') ∧
      ∃ left, Pending conn rest s' left w' := by
  induction n generalizing s items w with
  | zero => exact ⟨s, w, rfl, items, h⟩
  | succ n ih =>
    obtain ⟨s₁, w₁, hnext, h₁⟩ := next_pending hreceive h
    obtain ⟨s₂, w₂, hnexts, h₂⟩ := ih h₁
    refine ⟨s₂, w₂, ?_, h₂⟩
    have hhead : (List.range (n + 1)).map (items[·]?) =
        items.head? :: (List.range n).map (items.tail[·]?) := by
      rw [List.range_succ_eq_map, List.map_cons, List.map_map, List.head?_eq_getElem?]
      congr 1
      refine List.map_congr_left fun i _ => ?_
      simp
    rw [hhead, RowStream.nexts, bind_apply, hnext]
    dsimp only
    rw [bind_apply, hnexts]
    rfl

/-- The loop of the destructor reads the frames of the result and no others. -/
theorem dropLoop_pending (fuel : ℕ) {s : RowStream}
    {items : List (Except DriverError (List Value))} {w : World σ}
    (h : Pending conn rest s items w) (hfuel : w.stream.inbox.length < fuel) :
    ∃ w', RowStream.dropLoop E fuel s w = (.ok (), w') ∧ On (Waiting conn rest) w' := by
  induction fuel generalizing s items w with
  | zero => exact absurd hfuel (Nat.not_lt_zero _)
  | succ fuel ih =>
    rw [RowStream.dropLoop]
    cases h with
    | ended hdone hitems hw =>
      rw [if_pos hdone]
      exact ⟨w, rfl, hw⟩
    | fetching hdone hframes hitems hw =>
      have hopen : ¬ s.done = true := by simp [hdone]
      rw [if_neg hopen, bind_apply]
      cases hframes with
      | ends hdecode =>
        obtain ⟨w', hnext, hw'⟩ := nextFrame_waiting hreceive s hw
        rw [hnext, RowStream.takeFrame, hdecode]
        exact ih (.ended rfl rfl hw') (Waiting.length_lt hw hw' hfuel)
      | fails hdecode =>
        obtain ⟨w', hnext, hw'⟩ := nextFrame_waiting hreceive s hw
        rw [hnext, RowStream.takeFrame, hdecode]
        exact ⟨w', rfl, hw'⟩
      | chunk hdecode hframes =>
        obtain ⟨w', hnext, hw'⟩ := nextFrame_waiting hreceive s hw
        rw [hnext, RowStream.takeFrame, hdecode]
        exact ih (.fetching hdone hframes rfl hw') (Waiting.length_lt hw hw' hfuel)

/-- Dropping the stream reads the frames of the result and no others. -/
theorem drop_pending {s : RowStream} {items : List (Except DriverError (List Value))} {w : World σ}
    (h : Pending conn rest s items w) :
    ∃ w', s.drop E w = (.ok (), w') ∧ On (Waiting conn rest) w' :=
  dropLoop_pending hreceive (w.stream.inbox.length + 2) h (by omega)

/-! ## The first frame -/

/-- A first frame that begins a stream is read alone. -/
theorem beginStream_waiting (sql : String) {first : Frame} {resp : Response} {s : RowStream}
    (hdecode : Response.decode first = .ok resp) (hstart : RowStream.start resp = .ok s)
    {w : World σ} (hw : On (Waiting conn (first :: rest)) w) :
    ∃ w', beginStream E sql w = (.ok s, w') ∧ On (Waiting conn rest) w' := by
  have htriple : Triple (On (Waiting conn (first :: rest))) (beginStream E sql) fun r w' =>
      r = .ok s ∧ On (Waiting conn rest) w' := by
    refine Returns.bind (readFrame_waiting hreceive first rest) fun read => ?_
    refine Triple.assume ?_
    rintro rfl
    refine Triple.bind (R := fun r => On fun s => Waiting conn rest s ∧ r = .ok first) ?_
      (fun payload => ?_) ?_
    · refine observed_triple ?_ ?_
      · rintro v s hv hs
        cases hv
        exact ⟨hs, rfl⟩
      · intro e s he
        cases he
    · refine Triple.assume fun hpayload => ?_
      obtain rfl := Except.ok.inj hpayload
      rw [hdecode]
      refine Returns.bind (R := fun _ => On (Waiting conn rest)) ?_ fun _ => ?_
      · split
        · exact observeStatement_returns _ sql
        · exact fun w hw => ⟨(), rfl, hw⟩
      · exact Triple.settle fun w hw => ⟨hstart, hw⟩
    · intro e w hw
      cases hw.2
  obtain ⟨hresult, hw'⟩ := htriple w hw
  exact ⟨_, Prod.ext hresult rfl, hw'⟩

end Stream

/-! ## Several result sets -/

variable (E) in
/-- A stream that has ended hands out its chunk without touching the world. -/
theorem next_of_done {s : RowStream} (hdone : s.done = true) (w : World σ) :
    s.next E w = (.ok (s.chunk.head?.map .ok, { s with chunk := s.chunk.tail }), w) := by
  change RowStream.nextLoop E (w.stream.inbox.length + 2) s w = _
  rw [RowStream.nextLoop]
  obtain ⟨columns, affected, chunk, more, done⟩ := s
  obtain rfl : done = true := hdone
  cases chunk <;> rfl

variable (E) in
/-- Iterating over a stream that has ended hands out the rows of its chunk and reads no frame. -/
theorem collect_of_done (fuel : ℕ) {s : RowStream} (hdone : s.done = true)
    (hfuel : s.chunk.length < fuel) (w : World σ) :
    s.collect E fuel w = (.ok (s.chunk.map .ok, { s with chunk := [] }), w) := by
  induction fuel generalizing s with
  | zero => exact absurd hfuel (Nat.not_lt_zero _)
  | succ fuel ih =>
    have hnext := next_of_done E hdone w
    cases hchunk : s.chunk with
    | nil =>
      rw [hchunk] at hnext
      rw [RowStream.collect, bind_apply, hnext]
      rfl
    | cons row chunk =>
      rw [hchunk] at hnext hfuel
      have hlength : chunk.length < fuel := Nat.lt_of_succ_lt_succ hfuel
      have hrest : RowStream.collect E fuel { s with chunk := chunk } w =
          (.ok (chunk.map .ok, { s with chunk := [] }), w) := ih hdone hlength
      rw [RowStream.collect, bind_apply, hnext]
      dsimp only [List.head?_cons, List.tail_cons, Option.map_some]
      rw [bind_apply, hrest]
      rfl

variable (E) in
/-- Walking such a stream hands out the chunk and the sets after it, and leaves nothing. -/
theorem walk_of_done {fuel : ℕ} (n : ℕ) {s : RowStream} (hdone : s.done = true)
    (hchunk : s.chunk.length < fuel) (hmore : ∀ set ∈ s.more, set.2.length < fuel)
    (hn : s.more.length < n) (w : World σ) :
    ∃ last, last.done = true ∧ s.walk E fuel n w =
      (.ok (((s.columns, s.chunk) :: s.more).map fun set => (set.1, set.2.map .ok), last), w) := by
  induction n generalizing s with
  | zero => exact absurd hn (Nat.not_lt_zero _)
  | succ n ih =>
    have hcollect := collect_of_done E fuel hdone hchunk w
    cases hsets : s.more with
    | nil =>
      refine ⟨{ s with chunk := [] }, hdone, ?_⟩
      rw [RowStream.walk, bind_apply, hcollect]
      simp only [RowStream.nextResultSet, hsets]
      rfl
    | cons set more =>
      rw [hsets] at hmore hn
      have hset : set.2.length < fuel := hmore set List.mem_cons_self
      have hrest : ∀ later ∈ more, later.2.length < fuel :=
        fun later hlater => hmore later (List.mem_cons_of_mem set hlater)
      obtain ⟨last, hlast, hwalk⟩ :=
        ih (s := { s with columns := set.1, chunk := set.2, more := more }) hdone hset hrest
          (Nat.lt_of_succ_lt_succ hn)
      refine ⟨last, hlast, ?_⟩
      rw [RowStream.walk, bind_apply, hcollect]
      simp only [RowStream.nextResultSet, hsets]
      rw [bind_apply, hwalk]
      rfl

/-! ## Whole streams -/

/-- A reply that ends the exchange is walked without reading a frame. -/
theorem streamSets_waiting {conn : ℕ} (hreceive : ∀ env, (E.receive conn env).1 = .ok ())
    (sql : String) {first : Frame} {rest : List Frame} {resp : Response} {s : RowStream}
    (hdecode : Response.decode first = .ok resp) (hstart : RowStream.start resp = .ok s)
    (hdone : s.done = true) {fuel n : ℕ} (hchunk : s.chunk.length < fuel)
    (hmore : ∀ set ∈ s.more, set.2.length < fuel) (hn : s.more.length < n) {w : World σ}
    (hw : On (Waiting conn (first :: rest)) w) :
    ∃ w', streamSets E sql fuel n w =
        (.ok (((s.columns, s.chunk) :: s.more).map fun set => (set.1, set.2.map .ok)), w') ∧
      On (Waiting conn rest) w' := by
  obtain ⟨w₁, hbegin, hw₁⟩ := beginStream_waiting hreceive sql hdecode hstart hw
  obtain ⟨last, hlast, hwalk⟩ := walk_of_done E n hdone hchunk hmore hn w₁
  obtain ⟨w₂, hdrop, hw₂⟩ := drop_pending hreceive (.ended hlast rfl hw₁)
  refine ⟨w₂, ?_, hw₂⟩
  rw [streamSets, bind_apply, hbegin]
  dsimp only
  rw [bind_apply, hwalk]
  dsimp only
  rw [bind_apply, hdrop]
  rfl

/-- **Row streams.** The items of a streamed result are those of its chunks, whatever the chunks
are: the `i`-th answer of the iterator is the `i`-th row, then the failure if the result has
one, and nothing from there on; and a stream dropped after any number of items leaves
exactly the frames behind the result. The sets of a reply with several of them are walked
in order, each with its columns, and no frame is read for it; a reply without sets is
walked as an empty one. -/
theorem row_streams_independent_of_chunking {conn : ℕ}
    (hreceive : ∀ env, (E.receive conn env).1 = .ok ()) (sql : String) (first : Frame)
    (rest : List Frame) (w : World σ) :
    (∀ columns frames chunks failure, Response.decode first = .ok (.rowsHeader columns) →
      Streamed frames chunks failure → On (Waiting conn (first :: (frames ++ rest))) w →
      ∀ n, ∃ w', streamItems E sql n w =
          (.ok (columns, (List.range n).map ((resultItems chunks failure)[·]?)), w') ∧
        On (Waiting conn rest) w') ∧
    ∀ sets, Response.decode first = .ok (.resultSets sets) →
      On (Waiting conn (first :: rest)) w →
      ∀ fuel n, (∀ set ∈ sets, set.2.length < fuel) → 0 < fuel → sets.length ≤ n → 0 < n →
      ∃ w', streamSets E sql fuel n w =
          (.ok (if sets = [] then [([], [])] else sets.map fun set => (set.1, set.2.map .ok)),
            w') ∧
        On (Waiting conn rest) w' := by
  constructor
  · intro columns frames chunks failure hdecode hframes hw n
    have hstart : RowStream.start (.rowsHeader columns) = .ok ⟨columns, 0, [], [], false⟩ := rfl
    obtain ⟨w₁, hbegin, hw₁⟩ := beginStream_waiting hreceive sql hdecode hstart hw
    have hpending : Pending conn rest ⟨columns, 0, [], [], false⟩ (resultItems chunks failure) w₁ :=
      .fetching rfl hframes rfl hw₁
    obtain ⟨s₂, w₂, hnexts, left, hleft⟩ := nexts_pending hreceive n hpending
    obtain ⟨w₃, hdrop, hw₃⟩ := drop_pending hreceive hleft
    refine ⟨w₃, ?_, hw₃⟩
    rw [streamItems, bind_apply, hbegin]
    dsimp only
    rw [bind_apply, hnexts]
    dsimp only
    rw [bind_apply, hdrop]
    rfl
  · intro sets hdecode hw fuel n hfuel hpos hlength hn
    cases sets with
    | nil =>
      have hstart : RowStream.start (.resultSets []) = .ok ⟨[], 0, [], [], true⟩ := rfl
      exact streamSets_waiting hreceive sql hdecode hstart rfl hpos (by simp) hn hw
    | cons set more =>
      have hstart : RowStream.start (.resultSets (set :: more)) =
          .ok ⟨set.1, 0, set.2, more, true⟩ := rfl
      have hset : set.2.length < fuel := hfuel set List.mem_cons_self
      have hrest : ∀ later ∈ more, later.2.length < fuel :=
        fun later hlater => hfuel later (List.mem_cons_of_mem set hlater)
      rw [if_neg (List.cons_ne_nil set more)]
      exact streamSets_waiting hreceive sql hdecode hstart rfl hset hrest hlength hw

/-- A world in which frames wait on the only connection. -/
def waitingWorld (frames : List Frame) : World Unit :=
  ⟨⟨⟨["host"], "host", ⟨0, true, frames⟩, .quorum, none, 0, false⟩, 1, [], true⟩, ()⟩

/-- A row between empty chunks and a failure, asked for four times; the next reply is left. -/
theorem row_streams_independent_of_chunking_failing :
    ∃ w', streamItems (answering fun _ => []) "q" 4 (waitingWorld
        [(Response.rowsHeader ["a"]).encode, (Response.rowsChunk []).encode,
          (Response.rowsChunk [[Value.null]]).encode, (Response.rowsChunk []).encode,
          (Response.error "x").encode, Response.ddl.encode]) =
        (.ok (["a"], [some (.ok [Value.null]), some (.error (.server "x")), none, none]), w') ∧
      On (Waiting 0 [Response.ddl.encode]) w' := by
  have hdecode {r : Response} (h : r.encode.length < 2 ^ 32) :=
    Response.decode_encode (Response.fits_of_length h)
  have hframes := Streamed.chunk (hdecode (r := .rowsChunk []) (by decide))
    (.chunk (hdecode (r := .rowsChunk [[Value.null]]) (by decide))
      (.chunk (hdecode (r := .rowsChunk []) (by decide))
        (.fails (hdecode (r := .error "x") (by decide)))))
  have hreceive (env : Unit) : ((answering fun _ => []).receive 0 env).1 = .ok () := rfl
  exact (row_streams_independent_of_chunking hreceive "q" (Response.rowsHeader ["a"]).encode
    [Response.ddl.encode] (waitingWorld _)).1 ["a"] _ _ _
    (hdecode (r := .rowsHeader ["a"]) (by decide)) hframes ⟨rfl, rfl, by decide⟩ 4

end Skaidb

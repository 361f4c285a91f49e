import Skaidb.Codec.Depth
import Skaidb.Types.SkipCorrect

/-!
# Skipping and decoding on a stack

Both recursions take a level of the stack for every value that lies inside another one, and
neither has a limit of its own, so a value that nests deeper than the stack of the thread has
room for stops the process. How deep a value nests is a matter of its bytes alone: of the counts
in it, and of the checks of counts and strings that the decoder makes and the skipping reader does
not. Within the levels of the stack the skipping reader tracks the decoder, and beyond them the
process is gone.
-/

namespace Skaidb

open Codec

/-! ## The recursions on a stack -/

/-- The end of the process in a recursion whose stack is used up. It stands in the place of an
error, which none of the readers returns otherwise. -/
def stackOverflow : ValueError := .unrepresentableJson "stack overflow"

/-- `decode_value` on a stack with room for so many calls. -/
def decodeStack : ℕ → ValueReader RawValue
  | 0 => Reader.fail stackOverflow
  | levels + 1 => do
    let tag ← readU8
    decodeTagged (decodeStack levels) tag

/-- `skip_value` on a stack with room for so many calls. -/
def skipStack : ℕ → ValueReader Unit
  | 0 => Reader.fail stackOverflow
  | levels + 1 => do
    let tag ← readU8
    skipTagged (skipStack levels) tag

/-! ## How deep a value nests -/

/-- The walk through a string, whose bytes have to be UTF-8 if they are checked. -/
def textWalk (checked : Bool) : Walk UInt8 :=
  if checked then Walk.of readString else Walk.of readBytes

/-- The walk through a value after its tag, with `inside` for the values inside. If counts are
checked, an array with fewer bytes left than elements is not entered, nor is a document with fewer
than five bytes left for each field. -/
def nestTagged (checked : Bool) (inside : Walk UInt8) : UInt8 → Walk UInt8
  | Tag.null => Walk.of (pure () : ValueReader Unit)
  | Tag.bool => Walk.of readU8
  | Tag.int | Tag.float | Tag.timestamp => Walk.of readU64
  | Tag.decimal => Walk.after (readTake 16) fun _ => Walk.of readU32
  | Tag.string => textWalk checked
  | Tag.bytes => Walk.of readBytes
  | Tag.uuid => Walk.of (readTake 16)
  | Tag.array => Walk.after readU32 fun n =>
    Walk.ensure (fun left => checked = true → n ≤ left) (Walk.times n inside)
  | Tag.document => Walk.after readU32 fun n =>
    Walk.ensure (fun left => checked = true → n ≤ left / 5)
      (Walk.times n ((textWalk checked).andThen inside))
  | _ => fun _ => (0, none)

/-- The walk through one value, with a bound on the recursion. -/
def nest (checked : Bool) : ℕ → Walk UInt8
  | 0 => fun _ => (0, none)
  | fuel + 1 => Walk.call (Walk.after readU8 (nestTagged checked (nest checked fuel)))

/-- How many values lie one inside the other at the front of the input, the outermost one
included, as far as a walk comes that makes the checks of the decoder or does not. -/
def nesting (checked : Bool) (input : List UInt8) : ℕ := (nest checked (input.length + 1) input).1

/-! ## The readers of parts -/

/-- Reading four bytes does not run out of stack. -/
theorem readU32_spares : Reader.Spares stackOverflow readU32 :=
  (Reader.Spares.take (by decide) 4).bind fun _ => Reader.Spares.pure _

/-- Reading eight bytes does not run out of stack. -/
theorem readU64_spares : Reader.Spares stackOverflow readU64 :=
  (Reader.Spares.take (by decide) 8).bind fun _ => Reader.Spares.pure _

/-- Reading a string of bytes does not run out of stack. -/
theorem readBytes_spares : Reader.Spares stackOverflow readBytes :=
  readU32_spares.bind fun _ => Reader.Spares.take (by decide) _

/-- Reading a text does not run out of stack. -/
theorem readString_spares : Reader.Spares stackOverflow readString :=
  readBytes_spares.bind fun _ => Reader.Spares.ofOption (by decide) _

/-- A UUID is read without another level of recursion, as its sixteen bytes are skipped. -/
theorem readUuid_limits (n levels : ℕ) :
    Reader.Limits n stackOverflow levels (Walk.of (readTake 16)) readUuid readUuid := by
  intro input _
  unfold Walk.of readTake Reader.take readUuid
  split
  · exact Reader.LimitsAt.read _ _
  · exact Reader.LimitsAt.failed (by decide)

section Parts

variable {n levels : ℕ}

/-- The bytes of a decimal, whatever is made of them. -/
theorem decimal_limits {α : Type} (f : List UInt8 → ℕ → α) :
    Reader.Limits n stackOverflow levels (Walk.after (readTake 16) fun _ => Walk.of readU32)
      (readTake 16 >>= fun m => readU32 >>= fun s => pure (f m s))
      (readTake 16 >>= fun m => readU32 >>= fun s => pure (f m s)) :=
  Reader.Limits.after (Reader.Spares.take (by decide) 16) (Reader.Pays.take 0 _ 16).shrinks
    fun m => (Reader.Limits.of readU32_spares).map (f m)

/-- The branches of the decoder after the tag take what the checked walk takes. -/
theorem decodeTagged_limits {inside : Walk UInt8} {decode free : ValueReader RawValue}
    (h : Reader.Limits n stackOverflow levels inside decode free) (hshrinks : Reader.Shrinks free)
    (tag : UInt8) : Reader.Limits n stackOverflow levels (nestTagged true inside tag)
      (decodeTagged decode tag) (decodeTagged free tag) := by
  have hu32 : Reader.Shrinks readU32 := (readU32_pays 0).shrinks
  unfold nestTagged
  split
  · exact Reader.Limits.of (r := pure RawValue.null) (Reader.Spares.pure RawValue.null)
  · exact (Reader.Limits.of (Reader.Spares.symbol (by decide))).map fun b => RawValue.bool (b != 0)
  · exact (Reader.Limits.of readU64_spares).map fun word => RawValue.int word.toInt64
  · exact (Reader.Limits.of readU64_spares).map RawValue.float
  · exact (Reader.Limits.of readU64_spares).map fun word => RawValue.timestamp word.toInt64
  · exact (decimal_limits _).map RawValue.decimal
  · exact (Reader.Limits.of readString_spares).map RawValue.string
  · exact (Reader.Limits.of readBytes_spares).map RawValue.bytes
  · exact (readUuid_limits n levels).map RawValue.uuid
  · refine Reader.Limits.after readU32_spares hu32 fun k => ?_
    refine Reader.Limits.ensure (by simp) (by decide) ?_
    exact (h.times hshrinks k).map RawValue.array
  · refine Reader.Limits.after readU32_spares hu32 fun k => ?_
    refine Reader.Limits.ensure (by simp) (by decide) ?_
    have hstring : Reader.Shrinks readString := (readString_pays 0).shrinks
    have hfield := (Reader.Limits.of (n := n) readString_spares).bind hstring
      fun name => h.map fun value => (name, value)
    refine (hfield.times ?_ k).map fun fields => RawValue.document (Ascending.ofList utf8 fields)
    exact hstring.bind fun name => hshrinks.bind fun value => Reader.Shrinks.pure (name, value)
  · unfold decodeTagged
    split <;> first | contradiction | exact fun _ _ => Reader.LimitsAt.failed (by decide)

/-- The branches of the skipping reader after the tag take what the unchecked walk takes. -/
theorem skipTagged_limits {inside : Walk UInt8} {skip free : ValueReader Unit}
    (h : Reader.Limits n stackOverflow levels inside skip free) (hshrinks : Reader.Shrinks free)
    (tag : UInt8) : Reader.Limits n stackOverflow levels (nestTagged false inside tag)
      (skipTagged skip tag) (skipTagged free tag) := by
  have hu32 : Reader.Shrinks readU32 := (readU32_pays 0).shrinks
  unfold nestTagged
  split
  · exact Reader.Limits.of (r := pure ()) (Reader.Spares.pure ())
  · exact (Reader.Limits.of (Reader.Spares.symbol (by decide))).map fun _ => ()
  · exact (Reader.Limits.of readU64_spares).map fun _ => ()
  · exact (Reader.Limits.of readU64_spares).map fun _ => ()
  · exact (Reader.Limits.of readU64_spares).map fun _ => ()
  · exact decimal_limits fun _ _ => ()
  · exact (Reader.Limits.of readBytes_spares).map fun _ => ()
  · exact (Reader.Limits.of readBytes_spares).map fun _ => ()
  · exact (Reader.Limits.of (Reader.Spares.take (by decide) 16)).map fun _ => ()
  · refine Reader.Limits.after readU32_spares hu32 fun k => Reader.Limits.unchecked (by simp) ?_
    exact (h.times hshrinks k).map fun _ => ()
  · refine Reader.Limits.after readU32_spares hu32 fun k => Reader.Limits.unchecked (by simp) ?_
    have hbytes : Reader.Shrinks readBytes := fun input b rest hb => by
      have := (readBytes_pays 0 _ _ _ hb).2
      omega
    have hfield := (Reader.Limits.of (n := n) readBytes_spares).bind hbytes
      fun _ => h
    exact (hfield.times (hbytes.bind fun _ => hshrinks) k).map fun _ => ()
  · unfold skipTagged
    split <;> first | contradiction | exact fun _ _ => Reader.LimitsAt.failed (by decide)

end Parts

/-! ## The recursions within the levels -/

/-- One more level of a recursion: the call takes it, and the values inside have the others. -/
theorem limits_succ {α : Type} {n : ℕ} {checked : Bool} {inside : Walk UInt8}
    {tagged : ValueReader α → UInt8 → ValueReader α} {limited : ℕ → ValueReader α}
    {free : ValueReader α} (hzero : limited 0 = Reader.fail stackOverflow)
    (hsucc : ∀ levels, limited (levels + 1) = readU8 >>= tagged (limited levels))
    (hfree : free = readU8 >>= tagged free)
    (h : ∀ levels tag, Reader.Limits n stackOverflow levels (nestTagged checked inside tag)
      (tagged (limited levels) tag) (tagged free tag)) (levels : ℕ) :
    Reader.Limits (n + 1) stackOverflow levels
      (Walk.call (Walk.after readU8 (nestTagged checked inside))) (limited levels) free := by
  have hbody (levels : ℕ) : Reader.Limits (n + 1) stackOverflow levels
      (Walk.after readU8 (nestTagged checked inside)) (readU8 >>= tagged (limited levels))
      free := by
    have hread := Reader.Limits.symbol (show endOfInput ≠ stackOverflow by decide) (h levels)
    rw [← readU8, ← hfree] at hread
    exact hread
  cases levels with
  | zero =>
    rw [hzero]
    exact (hbody 0).exhausted
  | succ levels =>
    rw [hsucc]
    exact (hbody levels).call

/-- Decoding on a stack takes what the checked walk takes. -/
theorem decodeStack_limits (n levels : ℕ) :
    Reader.Limits n stackOverflow levels (nest true n) (decodeStack levels) readValue := by
  induction n generalizing levels with
  | zero => exact fun input hlen => absurd hlen (Nat.not_lt_zero _)
  | succ n ih =>
    have hshrinks : Reader.Shrinks readValue := fun rest => decodeValue_shrinks rest.length rest
    exact limits_succ rfl (fun _ => rfl) readValue_eq
      (fun levels tag => decodeTagged_limits (ih levels) hshrinks tag) levels

/-- Skipping on a stack takes what the unchecked walk takes. -/
theorem skipStack_limits (n levels : ℕ) :
    Reader.Limits n stackOverflow levels (nest false n) (skipStack levels) skipValue := by
  induction n generalizing levels with
  | zero => exact fun input hlen => absurd hlen (Nat.not_lt_zero _)
  | succ n ih =>
    have hshrinks : Reader.Shrinks skipValue := fun rest => skipFuel_shrinks rest.length rest
    exact limits_succ rfl (fun _ => rfl) skipValue_eq
      (fun levels tag => skipTagged_limits (ih levels) hshrinks tag) levels

/-- Decoding on a stack does as on one without bound while the nesting leaves room, and overflows
beyond. -/
theorem decodeStack_at (levels : ℕ) (input : List UInt8) :
    Reader.LimitsAt stackOverflow levels (nest true (input.length + 1) input)
      (decodeStack levels input) (readValue input) :=
  decodeStack_limits _ levels input (Nat.lt_succ_self _)

/-- Skipping on a stack does as on one without bound while the nesting leaves room, and overflows
beyond. -/
theorem skipStack_at (levels : ℕ) (input : List UInt8) :
    Reader.LimitsAt stackOverflow levels (nest false (input.length + 1) input)
      (skipStack levels input) (skipValue input) :=
  skipStack_limits _ levels input (Nat.lt_succ_self _)

/-! ## Tracking on a stack -/

/-- What the skipping reader and the decoder are to do at a place, with room for so many calls of
each on the stack: both come to an end, the skipping reader ends where the decoder does, and where
it ends the decoder ends too, or fails because a string or a name on the way is not UTF-8. -/
structure Tracks (decodeLevels skipLevels : ℕ) (input : List UInt8) : Prop where
  /-- The decoder comes to an end. -/
  decodes : decodeStack decodeLevels input ≠ .error stackOverflow
  /-- The skipping reader comes to an end. -/
  skips : skipStack skipLevels input ≠ .error stackOverflow
  /-- Where the decoder succeeds. -/
  follows : ∀ v rest, decodeStack decodeLevels input = .ok (v, rest) →
    skipStack skipLevels input = .ok ((), rest)
  /-- Where the skipping reader succeeds. -/
  leads : ∀ rest, skipStack skipLevels input = .ok ((), rest) →
    ∃ texts, valueTexts input = .ok (texts, rest) ∧
      ((∀ raw ∈ texts, IsUtf8 raw) → ∃ v, decodeStack decodeLevels input = .ok (v, rest)) ∧
      ((∃ raw ∈ texts, ¬ IsUtf8 raw) → decodeStack decodeLevels input =
        .error (.unrepresentableJson "invalid utf-8 in string"))

/-- **Skipping tracks decoding within the stack.** On all bytes from a start position on, and
with any room on the stack, the skipping reader tracks the decoder and both come to an end, if
and only if no more values lie one inside the other there than the stack has levels: counted on
the walk with the decoder's checks for the one, on the walk without checks for the other. -/
theorem tracks_iff_nesting (decodeLevels skipLevels : ℕ) (input : List UInt8) :
    Tracks decodeLevels skipLevels input ↔
      nesting true input ≤ decodeLevels ∧ nesting false input ≤ skipLevels := by
  have hdecode := decodeStack_at decodeLevels input
  have hskip := skipStack_at skipLevels input
  constructor
  · intro h
    exact ⟨Nat.le_of_not_lt fun hdeep => h.decodes (hdecode.beyond hdeep),
      Nat.le_of_not_lt fun hdeep => h.skips (hskip.beyond hdeep)⟩
  · rintro ⟨hdecodeLevels, hskipLevels⟩
    obtain ⟨hfollows, hleads, -⟩ := skipValue_tracks_readValue input
    have hdecoded := hdecode.within hdecodeLevels
    have hskipped := hskip.within hskipLevels
    refine ⟨?_, ?_, ?_, ?_⟩
    · rw [hdecoded]
      exact hdecode.spared
    · rw [hskipped]
      exact hskip.spared
    · rw [hdecoded, hskipped]
      exact hfollows
    · rw [hdecoded, hskipped]
      exact hleads

/-! ## Arrays inside arrays -/

/-- An array of one element, which is an array of one element, and so on so many times, around
a null. -/
def nestedArrays : ℕ → List UInt8
  | 0 => [Tag.null]
  | depth + 1 => [Tag.array, 1, 0, 0, 0] ++ nestedArrays depth

/-- The bytes of nested arrays are never none, as a null lies in the innermost. -/
theorem nestedArrays_pos (depth : ℕ) : 1 ≤ (nestedArrays depth).length := by
  cases depth with
  | zero => exact le_rfl
  | succ depth => simp [nestedArrays]

/-- Every array is one more value, whether the walk makes the checks of the decoder or not. -/
theorem nest_nestedArrays (checked : Bool) {depth fuel : ℕ} (h : depth < fuel) :
    nest checked fuel (nestedArrays depth) = (depth + 1, some []) := by
  induction depth generalizing fuel with
  | zero =>
    obtain ⟨fuel, rfl⟩ := Nat.exists_eq_succ_of_ne_zero (Nat.ne_of_gt h)
    rfl
  | succ depth ih =>
    obtain ⟨fuel, rfl⟩ := Nat.exists_eq_succ_of_ne_zero (Nat.ne_of_gt (Nat.zero_lt_of_lt h))
    have hstep : nest checked (fuel + 1) (nestedArrays (depth + 1)) =
        Walk.call (Walk.ensure (fun left => checked = true → 1 ≤ left)
          (Walk.times 1 (nest checked fuel))) (nestedArrays depth) := rfl
    have hinside := ih (Nat.lt_of_succ_lt_succ h)
    rw [hstep]
    unfold Walk.call Walk.ensure
    rw [if_pos fun _ => nestedArrays_pos depth]
    simp [Walk.times, Walk.andThen, hinside]

/-- Nested arrays take five bytes for each of them, and one for the null in the innermost. -/
theorem nestedArrays_length (depth : ℕ) : (nestedArrays depth).length = 5 * depth + 1 := by
  induction depth with
  | zero => rfl
  | succ depth ih =>
    rw [nestedArrays, List.length_append, ih]
    simp only [List.length_cons, List.length_nil]
    omega

/-- With no more levels than arrays, decoding them uses the stack up, however many there are. -/
theorem decodeStack_nestedArrays {levels depth : ℕ} (h : levels ≤ depth) :
    decodeStack levels (nestedArrays depth) = .error stackOverflow := by
  refine (decodeStack_at levels (nestedArrays depth)).beyond ?_
  rw [nest_nestedArrays true (by rw [nestedArrays_length]; omega)]
  exact Nat.lt_succ_of_le h

/-- With one level more than arrays, they are skipped. -/
theorem skipStack_nestedArrays (depth : ℕ) :
    skipStack (depth + 1) (nestedArrays depth) = .ok ((), []) := by
  obtain ⟨hrest, -, hwithin, -⟩ := skipStack_at (depth + 1) (nestedArrays depth)
  rw [nest_nestedArrays false (by rw [nestedArrays_length]; omega)] at hrest hwithin
  rw [hwithin le_rfl]
  obtain ⟨⟨u, rest⟩, hskip, hend⟩ := Option.map_eq_some_iff.mp hrest.symm
  obtain rfl : rest = [] := hend
  cases h : skipValue (nestedArrays depth) with
  | error e =>
    rw [h] at hskip
    cases hskip
  | ok result =>
    rw [h] at hskip
    rw [Option.some.inj hskip]

/-- Five megabytes of nested arrays, less than a frame takes: a stack of eight megabytes has no
room for so many calls even if each took no more than its return address, and where the stack does
for skipping them, decoding them may still use it up. -/
theorem nested_arrays_use_up_stack :
    (nestedArrays (2 ^ 20)).length = 5 * 2 ^ 20 + 1 ∧
      (∀ skipLevels, ¬ Tracks (2 ^ 20) skipLevels (nestedArrays (2 ^ 20))) ∧
      skipStack (2 ^ 20 + 1) (nestedArrays (2 ^ 20)) = .ok ((), []) :=
  ⟨nestedArrays_length _, fun _ h => h.decodes (decodeStack_nestedArrays le_rfl),
    skipStack_nestedArrays _⟩

end Skaidb

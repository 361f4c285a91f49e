import Skaidb.Codec.Screening
import Skaidb.Types.ScanCorrect

/-!
# Skipping and decoding

The skipping reader has neither the checks of counts nor the checks of strings that the
decoder has. The checks of counts never matter where a value can be skipped, since every
element takes a byte and every field takes five. The checks of strings are all that is left:
the decoder succeeds where the skipping reader does and ends at the same place, unless a
string or a name in between is not UTF-8.
-/

namespace Skaidb

open Codec

/-! ## The strings that are skipped -/

/-- The bytes of a string, not checked to be UTF-8. -/
def rawText : ValueReader (List (List UInt8)) := do
  let raw ← readBytes
  pure [raw]

/-- The bytes of the name of a field and of the strings in its value. -/
def textsField (texts : ValueReader (List (List UInt8))) : ValueReader (List (List UInt8)) := do
  let name ← rawText
  let inside ← texts
  pure (name ++ inside)

/-- The bytes of the strings and the names in a value after its tag, with `texts` for the
values inside. -/
def textsTagged (texts : ValueReader (List (List UInt8))) :
    UInt8 → ValueReader (List (List UInt8))
  | Tag.null => pure []
  | Tag.bool => do
    let _ ← readU8
    pure []
  | Tag.int | Tag.float | Tag.timestamp => do
    let _ ← readU64
    pure []
  | Tag.decimal => do
    let _ ← readTake 16
    let _ ← readU32
    pure []
  | Tag.string => rawText
  | Tag.bytes => do
    let _ ← readBytes
    pure []
  | Tag.uuid => do
    let _ ← readTake 16
    pure []
  | Tag.array => do
    let n ← readU32
    let lists ← Reader.times n texts
    pure lists.flatten
  | Tag.document => do
    let n ← readU32
    let lists ← Reader.times n (textsField texts)
    pure lists.flatten
  | _ => Reader.fail (.unrepresentableJson "unknown value tag")

/-- The strings and names of one value, with a bound on the recursion. -/
def textsFuel : ℕ → ValueReader (List (List UInt8))
  | 0 => Reader.fail endOfInput
  | fuel + 1 => do
    let tag ← readU8
    textsTagged (textsFuel fuel) tag

/-- The bytes of all strings and names of the value at the front. -/
def valueTexts : ValueReader (List (List UInt8)) := fun input => textsFuel input.length input

/-- The strings are listed where a value is skipped. -/
theorem textsTagged_follows {texts : ValueReader (List (List UInt8))} {skip : ValueReader Unit}
    (h : Reader.Follows texts skip) (tag : UInt8) :
    Reader.Follows (textsTagged texts tag) (skipTagged skip tag) := by
  have hpure (parts : List (List UInt8)) :
      Reader.Follows (pure parts : ValueReader (List (List UInt8))) (pure ()) :=
    Reader.Follows.pure parts ()
  have hraw : Reader.Follows rawText readBytes := by
    intro input raw rest hraw
    exact ⟨[raw], Reader.bind_of_ok hraw _⟩
  unfold skipTagged
  split
  · exact hpure _
  · exact Reader.Follows.bind fun _ => hpure _
  · exact Reader.Follows.bind fun _ => hpure _
  · exact Reader.Follows.bind fun _ => hpure _
  · exact Reader.Follows.bind fun _ => hpure _
  · exact Reader.Follows.bind fun _ => Reader.Follows.bind fun _ => hpure _
  · exact Reader.Follows.bind fun _ => hpure _
  · exact Reader.Follows.bind fun _ => hpure _
  · exact Reader.Follows.bind fun _ => hpure _
  · refine Reader.Follows.bind fun n => ?_
    exact (h.times n).bind_both fun _ _ => hpure _
  · refine Reader.Follows.bind fun n => ?_
    refine Reader.Follows.bind_both (Reader.Follows.times ?_ n) fun _ _ => hpure _
    refine hraw.bind_both fun name _ input u rest hskip => ?_
    obtain ⟨inside, hinside⟩ := h _ _ _ hskip
    exact ⟨name ++ inside, Reader.bind_of_ok hinside _⟩
  · intro input u rest hskip
    cases hskip

/-- The strings are listed where a value is skipped under the same bound. -/
theorem textsFuel_follows (fuel : ℕ) : Reader.Follows (textsFuel fuel) (skipFuel fuel) := by
  induction fuel with
  | zero =>
    intro input u rest h
    cases h
  | succ fuel ih => exact Reader.Follows.bind fun tag => textsTagged_follows ih tag

/-! ## What a value takes -/

/-- The bytes of a string take four bytes at least. -/
theorem rawText_pays (credit : ℕ) :
    Reader.Pays credit rawText (fun _ => True) fun _ => credit + 4 :=
  (readBytes_pays credit).bind fun _ _ => Reader.Pays.pure trivial (by omega)

/-- A field takes five bytes at least when its value takes one. -/
theorem textsField_pays {texts : ValueReader (List (List UInt8))}
    (h : Reader.Pays 0 texts (fun _ => True) fun _ => 1) :
    Reader.Pays 0 (textsField texts) (fun _ => True) fun _ => 5 := by
  refine (rawText_pays 0).bind fun name _ input parts rest hparts => ?_
  obtain ⟨inside, middle, hinside, hout⟩ := Reader.bind_eq_ok hparts
  obtain ⟨-, rfl⟩ : name ++ inside = parts ∧ middle = rest := by simpa using hout
  obtain ⟨-, hsize⟩ := h _ _ _ hinside
  dsimp only at hsize ⊢
  exact ⟨trivial, by omega⟩

/-- A value takes a byte for its tag when the values inside do. -/
theorem textsTagged_pays {texts : ValueReader (List (List UInt8))}
    (h : Reader.Pays 0 texts (fun _ => True) fun _ => 1) (tag : UInt8) :
    Reader.Pays 1 (textsTagged texts tag) (fun _ => True) fun _ => 1 := by
  unfold textsTagged
  split
  · exact Reader.Pays.pure trivial le_rfl
  · exact (Reader.Pays.symbol 1 _).bind fun _ _ => Reader.Pays.pure trivial (by omega)
  · exact (readU64_pays 1).bind fun _ _ => Reader.Pays.pure trivial (by omega)
  · exact (readU64_pays 1).bind fun _ _ => Reader.Pays.pure trivial (by omega)
  · exact (readU64_pays 1).bind fun _ _ => Reader.Pays.pure trivial (by omega)
  · exact (Reader.Pays.take 1 _ 16).bind fun _ _ =>
      (readU32_pays _).bind fun _ _ => Reader.Pays.pure trivial (by omega)
  · intro input parts rest hparts
    obtain ⟨-, hsize⟩ := rawText_pays 1 _ _ _ hparts
    dsimp only at hsize ⊢
    exact ⟨trivial, by omega⟩
  · exact (readBytes_pays 1).bind fun _ _ => Reader.Pays.pure trivial (by omega)
  · exact (Reader.Pays.take 1 _ 16).bind fun _ _ => Reader.Pays.pure trivial (by omega)
  · refine (readU32_pays 1).bind fun n _ => (Reader.Pays.times _ h n).bind fun _ _ => ?_
    exact Reader.Pays.pure trivial (by omega)
  · refine (readU32_pays 1).bind fun n _ => ?_
    refine (Reader.Pays.times _ (textsField_pays h) n).bind fun _ _ => ?_
    exact Reader.Pays.pure trivial (by omega)
  · intro input parts rest htexts
    cases htexts

/-- Whatever value the walk over the texts passes has taken at least a byte. -/
theorem textsFuel_pays (fuel : ℕ) :
    Reader.Pays 0 (textsFuel fuel) (fun _ => True) fun _ => 1 := by
  induction fuel with
  | zero =>
    intro input parts rest h
    cases h
  | succ fuel ih =>
    exact (Reader.Pays.symbol 0 endOfInput).bind fun tag _ => textsTagged_pays ih tag

/-- Whatever `skip_value` leaves over is no longer than the input it was given. -/
theorem skipFuel_shrinks (fuel : ℕ) : Reader.Shrinks (skipFuel fuel) := by
  intro input u rest h
  obtain ⟨parts, hparts⟩ := textsFuel_follows fuel _ _ _ h
  exact (textsFuel_pays fuel).shrinks _ _ _ hparts

/-! ## The bound on the recursion -/

/-- The branches after the tag agree when the recursive calls do. -/
theorem skipTagged_agreeUpTo {n : ℕ} {skip skip' : ValueReader Unit}
    (h : Reader.AgreeUpTo n skip skip') (hshrinks : Reader.Shrinks skip') (tag : UInt8) :
    Reader.AgreeUpTo n (skipTagged skip tag) (skipTagged skip' tag) := by
  have hu32 : Reader.Shrinks readU32 := (readU32_pays 0).shrinks
  unfold skipTagged
  split
  case h_10 =>
    refine (Reader.AgreeUpTo.refl n _).bind hu32 fun k => ?_
    exact (h.times hshrinks k).bind_left _
  case h_11 =>
    have hbytes : Reader.Shrinks readBytes := fun input b rest hb => by
      have := (readBytes_pays 0 _ _ _ hb).2
      omega
    refine (Reader.AgreeUpTo.refl n _).bind hu32 fun k => ?_
    refine Reader.AgreeUpTo.bind_left (Reader.AgreeUpTo.times ?_ ?_ k) _
    · exact (Reader.AgreeUpTo.refl n _).bind hbytes fun _ => h
    · exact hbytes.bind fun _ => hshrinks
  all_goals exact Reader.AgreeUpTo.refl n _

/-- One more step of recursion makes no difference once the bound covers the input. -/
theorem skipFuel_agreeUpTo_succ (n : ℕ) :
    Reader.AgreeUpTo n (skipFuel n) (skipFuel (n + 1)) := by
  induction n with
  | zero =>
    intro input hlen
    obtain rfl : input = [] := List.length_eq_zero_iff.mp (by omega)
    rfl
  | succ n ih =>
    exact Reader.AgreeUpTo.symbol_bind endOfInput fun tag =>
      skipTagged_agreeUpTo ih (skipFuel_shrinks _) tag

/-- The bound on the recursion does not matter once it covers the input. -/
theorem skipFuel_eq_of_le {input : List UInt8} {fuel : ℕ} (hfuel : input.length ≤ fuel) :
    skipFuel fuel input = skipValue input := by
  induction fuel, hfuel using Nat.le_induction with
  | base => rfl
  | succ fuel hfuel ih => rw [← ih, skipFuel_agreeUpTo_succ fuel input hfuel]

/-- The recursion of `skip_value` as the source writes it, free of the bound that makes it
terminate. -/
theorem skipValue_eq : skipValue = (do
    let tag ← readU8
    skipTagged skipValue tag) := by
  funext input
  cases input with
  | nil => rfl
  | cons tag input =>
    have hagree : Reader.AgreeUpTo input.length (skipFuel input.length) skipValue :=
      fun rest hrest => skipFuel_eq_of_le hrest
    have hshrinks : Reader.Shrinks skipValue := fun rest => skipFuel_shrinks rest.length rest
    exact skipTagged_agreeUpTo hagree hshrinks tag input le_rfl

/-! ## Decoding in step with skipping -/

/-- The failure of a string that is not UTF-8. -/
def invalidUtf8 : ValueError := .unrepresentableJson "invalid utf-8 in string"

/-- These bytes are the UTF-8 of some text, which is what decoding a string checks. -/
def IsUtf8 (raw : List UInt8) : Prop := ∃ s, fromUtf8 raw = some s

/-- A string is read where its bytes are UTF-8. -/
theorem rawText_screens_readString : Reader.Screens IsUtf8 invalidUtf8 rawText readString := by
  intro input parts rest h
  obtain ⟨raw, middle, hraw, hout⟩ := Reader.bind_eq_ok h
  obtain ⟨rfl, rfl⟩ : [raw] = parts ∧ middle = rest := by simpa using hout
  have hread : readString input =
      Reader.ofOption (.unrepresentableJson "invalid utf-8 in string") (fromUtf8 raw) middle :=
    Reader.bind_of_ok hraw _
  rw [hread]
  refine ⟨fun hall => ?_, ?_⟩
  · obtain ⟨s, hs⟩ := hall raw (List.mem_singleton_self raw)
    exact ⟨s, by rw [hs]; rfl⟩
  · rintro ⟨x, hx, hbad⟩
    obtain rfl := List.mem_singleton.mp hx
    cases hs : fromUtf8 x with
    | none => rfl
    | some s => exact absurd ⟨s, hs⟩ hbad

/-- A UUID is read where sixteen bytes are, with no string in it that could fail to be UTF-8. -/
theorem take_screens_readUuid :
    Reader.Screens IsUtf8 invalidUtf8 (readTake 16 >>= fun _ => pure []) readUuid := by
  intro input parts rest h
  obtain ⟨raw, middle, hraw, hout⟩ := Reader.bind_eq_ok h
  obtain ⟨rfl, rfl⟩ : [] = parts ∧ middle = rest := by simpa using hout
  obtain ⟨rfl, hlen⟩ := Reader.take_eq_ok hraw
  exact ⟨fun _ => ⟨⟨raw, hlen⟩, readUuid_reads ⟨raw, hlen⟩ middle⟩,
    fun ⟨x, hx, _⟩ => absurd hx List.not_mem_nil⟩

/-- The decoder's branches walk in step with the listing of strings: the counts pass their
checks, since as many elements are skipped. -/
theorem textsTagged_screens {texts : ValueReader (List (List UInt8))}
    {decode : ValueReader RawValue} (h : Reader.Screens IsUtf8 invalidUtf8 texts decode)
    (hpays : Reader.Pays 0 texts (fun _ => True) fun _ => 1) (tag : UInt8) :
    Reader.Screens IsUtf8 invalidUtf8 (textsTagged texts tag) (decodeTagged decode tag) := by
  unfold textsTagged
  split
  · exact Reader.Screens.pure RawValue.null
  · exact Reader.Screens.bind fun b => Reader.Screens.pure (RawValue.bool (b != 0))
  · exact Reader.Screens.bind fun word => Reader.Screens.pure (RawValue.int word.toInt64)
  · exact Reader.Screens.bind fun word => Reader.Screens.pure (RawValue.float word)
  · exact Reader.Screens.bind fun word => Reader.Screens.pure (RawValue.timestamp word.toInt64)
  · have hdecimal : Reader.Screens IsUtf8 invalidUtf8 (textsTagged texts Tag.decimal) readDecimal :=
      Reader.Screens.bind fun _ => Reader.Screens.bind fun _ => Reader.Screens.pure _
    exact hdecimal.map RawValue.decimal
  · exact rawText_screens_readString.map RawValue.string
  · exact Reader.Screens.bind fun b => Reader.Screens.pure (RawValue.bytes b)
  · exact take_screens_readUuid.map RawValue.uuid
  · refine Reader.Screens.bind fun n => Reader.Screens.ensure (fun input parts rest hparts => ?_) ?_
    · obtain ⟨lists, middle, hlists, -⟩ := Reader.bind_eq_ok hparts
      have hlen := hpays.mul_add_length_le (k := 1) (fun _ _ => le_rfl) hlists
      omega
    · exact (h.times n).map RawValue.array
  · refine Reader.Screens.bind fun n => Reader.Screens.ensure (fun input parts rest hparts => ?_) ?_
    · obtain ⟨lists, middle, hlists, -⟩ := Reader.bind_eq_ok hparts
      have hlen := (textsField_pays hpays).mul_add_length_le (k := 5) (fun _ _ => le_rfl) hlists
      omega
    · have hfield : Reader.Screens IsUtf8 invalidUtf8 (textsField texts) (readFieldWith decode) :=
        rawText_screens_readString.append fun name => h.map fun value => (name, value)
      exact (hfield.times n).map fun fields => RawValue.document (Ascending.ofList utf8 fields)
  · exact Reader.Screens.fail _ _

/-- Decoding walks in step with the listing of strings under one bound. -/
theorem textsFuel_screens (fuel : ℕ) :
    Reader.Screens IsUtf8 invalidUtf8 (textsFuel fuel) (decodeValue fuel) := by
  induction fuel with
  | zero => exact Reader.Screens.fail _ _
  | succ fuel ih =>
    exact Reader.Screens.bind fun tag => textsTagged_screens ih (textsFuel_pays fuel) tag

/-- **Skipping tracks decoding** when the stack has no bound. For all bytes from a start position
on: where a value decodes, it is skipped, and both end at the same place. Where a value is
skipped, it decodes and ends there if all strings and names in it are UTF-8, and otherwise
decoding fails with the error of a string that is not. Both recursions come to an end: each is
free of the bound on the recursion, which makes no difference once it covers the bytes left,
whatever the counts say. -/
theorem skipValue_tracks_readValue (input : List UInt8) :
    (∀ v rest, readValue input = .ok (v, rest) → skipValue input = .ok ((), rest)) ∧
    (∀ rest, skipValue input = .ok ((), rest) → ∃ texts, valueTexts input = .ok (texts, rest) ∧
      ((∀ raw ∈ texts, IsUtf8 raw) → ∃ v, readValue input = .ok (v, rest)) ∧
      ((∃ raw ∈ texts, ¬ IsUtf8 raw) →
        readValue input = .error (.unrepresentableJson "invalid utf-8 in string"))) ∧
    (∀ fuel, input.length ≤ fuel →
      skipFuel fuel input = skipValue input ∧ decodeValue fuel input = readValue input) ∧
    (skipValue input = (readU8 >>= skipTagged skipValue) input) ∧
    readValue input = (readU8 >>= decodeTagged readValue) input := by
  refine ⟨fun v rest h => skipValue_eq_ok h, fun rest h => ?_, fun fuel hfuel =>
    ⟨skipFuel_eq_of_le hfuel, decodeValue_eq_of_le hfuel⟩, ?_, ?_⟩
  · obtain ⟨texts, htexts⟩ := textsFuel_follows _ _ _ _ h
    exact ⟨texts, htexts, textsFuel_screens _ _ _ _ htexts⟩
  · exact congrFun skipValue_eq input
  · exact congrFun readValue_eq input

end Skaidb

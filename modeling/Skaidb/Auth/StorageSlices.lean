import Skaidb.Auth.Storage
import Skaidb.Types.UuidText

/-!
# Verifiers sliced inside a character

The two readers of a verifier check that a field in hexadecimal has an even number of bytes
and slice it two bytes at a time. They take the fields in order and stop at the first one
that is refused, so a character stops the program only in a field that they reach.
-/

namespace Skaidb

open Codec Uuid

/-! ## Readers that slice -/

section Readers

variable {α β : Type}

/-- The reader comes upon a slice inside a character, where the source panics. -/
def Stops (x : OptionT (Except Panic) α) : Prop := x.run = .error .sliceBoundary

/-- The reader goes on with a value, without a panic and without a refusal. -/
def Yields (x : OptionT (Except Panic) α) (a : α) : Prop := x.run = .ok (some a)

/-- A reader returns unless it slices inside a character. -/
theorem returns_iff_not_stops {x : OptionT (Except Panic) α} :
    (∃ r, x.run = .ok r) ↔ ¬ Stops x := by
  unfold Stops
  rcases x.run with ⟨⟨⟩⟩ | r
  · simp
  · simp

/-- One reader after another stops in the first, or in the second after a value. -/
theorem stops_bind {x : OptionT (Except Panic) α} {f : α → OptionT (Except Panic) β} :
    Stops (x >>= f) ↔ Stops x ∨ ∃ a, Yields x a ∧ Stops (f a) := by
  unfold Stops Yields
  rw [OptionT.run_bind]
  rcases x.run with e | (_ | a)
  · cases e
    simp [Option.elimM, bind, Except.bind]
  · simp [bind, Except.bind, Option.elimM, pure, Except.pure]
  · simp [bind, Except.bind, Option.elimM]

/-- An option that is at hand does not stop. -/
theorem not_stops_option (o : Option α) : ¬ Stops (OptionT.mk (pure o)) := by
  intro h
  cases h

/-- An option that is at hand goes on with its value. -/
theorem yields_option {o : Option α} {a : α} : Yields (OptionT.mk (pure o)) a ↔ o = some a := by
  change (Except.ok o : Except Panic (Option α)) = .ok (some a) ↔ _
  rw [Except.ok.injEq]

end Readers

/-! ## Fields in hexadecimal -/

/-- Reading the field in hexadecimal slices it inside a character. -/
def CutField (text : List Char) : Prop := byteLength text % 2 = 0 ∧ Straddled text

/-- Pairs that are read as numbers are written in two bytes each. -/
theorem byteLength_of_pairs : {text : List Char} → Pairs text → byteLength text % 2 = 0
  | [], _ => rfl
  | c :: d :: text, ⟨hc, hd, htext⟩ => by
    have ih := byteLength_of_pairs htext
    rw [byteLength_cons, byteLength_cons, utf8Size_of_plus_or_digit hc, hd.utf8Size]
    omega

/-- Pairs that are read as numbers are sliced between characters. -/
theorem not_straddled_of_pairs : {text : List Char} → Pairs text → ¬ Straddled text
  | [], _ => id
  | _ :: _ :: text, ⟨hc, hd, htext⟩ => fun h =>
    have hrest := (straddled_cons_cons (utf8Size_of_plus_or_digit hc) hd.utf8Size text).mp h
    not_straddled_of_pairs htext hrest.2

/-- A field is sliced inside a character exactly when it is even and straddled. -/
theorem stops_unhex {text : List Char} : Stops (unhex text) ↔ CutField text := by
  unfold unhex CutField
  by_cases heven : byteLength text % 2 = 0
  · rw [if_neg (not_not.mpr heven)]
    have houtcome : PairsOutcome text (unhexPairs (byteLength text / 2) text).run :=
      pairsOutcome (by omega)
    unfold Stops
    generalize (unhexPairs (byteLength text / 2) text).run = outcome at houtcome ⊢
    cases houtcome with
    | panicked h => simp [heven, h]
    | refused hfree _ => simp [hfree]
    | accepted hfree _ _ _ => simp [hfree]
  · rw [if_pos heven]
    refine iff_of_false ?_ fun h => heven h.1
    intro h
    cases h

/-- A field that is read has two bytes of text for each byte. -/
theorem length_of_yields_unhex {text : List Char} {bytes : List UInt8}
    (h : Yields (unhex text) bytes) : byteLength text = 2 * bytes.length := by
  unfold unhex at h
  by_cases heven : byteLength text % 2 = 0
  · rw [if_neg (not_not.mpr heven)] at h
    have hlength := length_of_run_unhexPairs h
    omega
  · rw [if_pos heven] at h
    cases h

/-- A field is read exactly when it consists of pairs. -/
theorem exists_yields_unhex {text : List Char} :
    (∃ bytes, Yields (unhex text) bytes) ↔ Pairs text := by
  unfold unhex
  by_cases heven : byteLength text % 2 = 0
  · rw [if_neg (not_not.mpr heven)]
    have houtcome : PairsOutcome text (unhexPairs (byteLength text / 2) text).run :=
      pairsOutcome (by omega)
    unfold Yields
    generalize (unhexPairs (byteLength text / 2) text).run = outcome at houtcome ⊢
    cases houtcome with
    | panicked h =>
      refine iff_of_false ?_ fun hpairs => not_straddled_of_pairs hpairs h
      rintro ⟨bytes, hbytes⟩
      cases hbytes
    | refused _ hpairs => simp [hpairs]
    | accepted _ hpairs bytes _ => simp [hpairs]
  · rw [if_pos heven]
    refine iff_of_false ?_ fun hpairs => heven (byteLength_of_pairs hpairs)
    rintro ⟨bytes, hbytes⟩
    cases hbytes

/-- A key is read exactly when it consists of 32 pairs. -/
theorem exists_yields_key {text : List Char} :
    (∃ bytes, Yields (unhex text) bytes ∧ ∃ key, Digest.ofBytes bytes = some key) ↔
      Pairs text ∧ byteLength text = 64 := by
  have hkey (bytes : List UInt8) :
      (∃ key, Digest.ofBytes bytes = some key) ↔ bytes.length = 32 := by
    unfold Digest.ofBytes
    split <;> simp_all
  constructor
  · rintro ⟨bytes, hbytes, hdigest⟩
    have hlength := length_of_yields_unhex hbytes
    have hdigest := (hkey bytes).mp hdigest
    exact ⟨exists_yields_unhex.mp ⟨bytes, hbytes⟩, by omega⟩
  · rintro ⟨hpairs, hsize⟩
    obtain ⟨bytes, hbytes⟩ := exists_yields_unhex.mpr hpairs
    have hlength := length_of_yields_unhex hbytes
    exact ⟨bytes, hbytes, (hkey bytes).mpr (by omega)⟩

/-! ## The two texts -/

namespace ScramCredential

/-- The fields behind the iteration count are sliced inside a character: the salt, a key
behind a salt that is read, or the second key behind a first one that is read. -/
def CutFields : List (List Char) → Prop
  | [] => False
  | [salt] => CutField salt
  | [salt, stored] => CutField salt ∨ Pairs salt ∧ CutField stored
  | salt :: stored :: server :: _ => CutField salt ∨ Pairs salt ∧
    (CutField stored ∨ (Pairs stored ∧ byteLength stored = 64) ∧ CutField server)

/-- The fields with colons are sliced inside a character behind an iteration count. -/
def CutText : List (List Char) → Prop
  | [] => False
  | count :: fields => (fromStrRadix 10 (2 ^ 32) count).isSome ∧ CutFields fields

/-- The fields of the storage form are sliced inside a character behind the name of the
mechanism and an iteration count. -/
def CutStorage : List (List Char) → Prop
  | [] => False
  | name :: fields => name = mechanismName ∧ CutText fields

/-- `from_storage_string` behind the iteration count: the salt and the two keys by their digits. -/
def readFields (iterations : ℕ) (parts : List (List Char)) :
    OptionT (Except Panic) ScramCredential := do
  let (part, parts) ← OptionT.mk (pure (nextPart parts))
  let salt ← unhex part
  let (part, parts) ← OptionT.mk (pure (nextPart parts))
  let stored ← unhex part
  let storedKey ← OptionT.mk (pure (Digest.ofBytes stored))
  let (part, parts) ← OptionT.mk (pure (nextPart parts))
  let server ← unhex part
  let serverKey ← OptionT.mk (pure (Digest.ofBytes server))
  if (nextPart parts).isSome then failure
  else pure ⟨salt, UInt32.ofNat iterations, storedKey, serverKey⟩

/-- Read the iteration count and the fields behind it. -/
def readText (parts : List (List Char)) : OptionT (Except Panic) ScramCredential := do
  let (part, parts) ← OptionT.mk (pure (nextPart parts))
  let iterations ← OptionT.mk (pure (fromStrRadix 10 (2 ^ 32) part))
  readFields iterations parts

/-- The form with colons is its iteration count and fields. -/
theorem decode_eq_readText (s : String) : decode s = (readText (s.toList.splitOn ':')).run := rfl

/-- The storage form has the name of the mechanism before these. -/
theorem fromStorageString_eq_readText (s : String) : fromStorageString s = (do
    let (part, parts) ← OptionT.mk (pure (nextPart (s.toList.splitOn '$')))
    if part ≠ mechanismName then failure else readText parts).run := rfl

/-- The end of a verifier does not stop. -/
theorem not_stops_end (last : Prop) [Decidable last] (c : ScramCredential) :
    ¬ Stops (if last then failure else pure c : OptionT (Except Panic) ScramCredential) := by
  split
  · exact not_stops_option none
  · exact not_stops_option (some c)

/-- The fields behind the iteration count stop the program when they are sliced inside a
character. -/
theorem stops_readFields (iterations : ℕ) (parts : List (List Char)) :
    Stops (readFields iterations parts) ↔ CutFields parts := by
  unfold readFields
  simp only [stops_bind, not_stops_option, yields_option, stops_unhex, not_stops_end, false_or]
  rcases parts with _ | ⟨salt, _ | ⟨stored, _ | ⟨server, rest⟩⟩⟩
  · simp [nextPart, CutFields]
  · simp [nextPart, CutFields]
  · simp [nextPart, CutFields, exists_yields_unhex]
  · simp [nextPart, CutFields, exists_yields_unhex, ← exists_yields_key, ← and_assoc]

/-- The iteration count is read before the fields, so these are sliced inside a character only
behind a count. -/
theorem stops_readText (parts : List (List Char)) : Stops (readText parts) ↔ CutText parts := by
  unfold readText
  simp only [stops_bind, not_stops_option, yields_option, stops_readFields, false_or]
  cases parts with
  | nil => simp [nextPart, CutText]
  | cons count fields => simp [nextPart, CutText, Option.isSome_iff_exists]

/-- The form with colons is read unless a field is sliced inside a character. -/
theorem decode_returns_iff (s : String) :
    (∃ r, decode s = .ok r) ↔ ¬ CutText (s.toList.splitOn ':') := by
  rw [decode_eq_readText, returns_iff_not_stops, stops_readText]

/-- The storage form is read unless a field is sliced inside a character. -/
theorem fromStorageString_returns_iff (s : String) :
    (∃ r, fromStorageString s = .ok r) ↔ ¬ CutStorage (s.toList.splitOn '$') := by
  rw [fromStorageString_eq_readText, returns_iff_not_stops, stops_bind]
  simp only [not_stops_option, yields_option, false_or]
  cases s.toList.splitOn '$' with
  | nil => simp [nextPart, CutStorage]
  | cons name fields =>
    by_cases hname : name = mechanismName
    · simp [nextPart, CutStorage, hname, stops_readText]
    · have hfailure : ¬ Stops (failure : OptionT (Except Panic) ScramCredential) :=
        not_stops_option none
      simp [nextPart, CutStorage, hname, hfailure]

/-- **Reading verifiers.** Both readers return for a text exactly when no field that they
reach has an even number of bytes and a character over the end of two of them. -/
theorem readers_return_iff (s : String) :
    (∃ r, decode s = .ok r) ∧ (∃ r, fromStorageString s = .ok r) ↔
      ¬ CutText (s.toList.splitOn ':') ∧ ¬ CutStorage (s.toList.splitOn '$') := by
  rw [decode_returns_iff, fromStorageString_returns_iff]

/-- A wide character behind one digit of the salt stops both readers. -/
theorem readers_stop :
    decode "1:aéa" = .error .sliceBoundary ∧
      fromStorageString "SCRAM-SHA-256$1$aéa" = .error .sliceBoundary := by
  decide

end ScramCredential

end Skaidb

import Skaidb.Auth.Scram

/-!
# The two texts of a verifier

Besides the form with colons that is replicated, a verifier has a storage form that begins
with the name of the mechanism and separates its fields by dollar signs. The two forms have
readers of their own, and neither reader takes the other's text.
-/

namespace Skaidb

open Codec

/-- Read bytes in hexadecimal, in the storage form. -/
def fromHex (text : List Char) : OptionT (Except Panic) (List UInt8) :=
  if byteLength text % 2 ≠ 0 then failure else unhexPairs (byteLength text / 2) text

namespace ScramCredential

/-- The name of the mechanism, SCRAM-SHA-256, that stored credentials begin with. -/
def mechanismName : List Char :=
  ['S', 'C', 'R', 'A', 'M', '-', 'S', 'H', 'A', '-', '2', '5', '6']

/-- The verifier in the form `SCRAM-SHA-256$iterations$salt_hex$stored_hex$server_hex`, which other
programs read too. -/
def toStorageString (c : ScramCredential) : String :=
  String.ofList (mechanismName ++ '$' :: (Nat.toDigits 10 c.iterations.toNat ++ '$' ::
    (hexText c.salt ++ '$' :: (hexText c.storedKey.bytes ++ '$' :: hexText c.serverKey.bytes))))

/-- Read a verifier from the form with `$` between its fields; there is none when the form is
another one. -/
def fromStorageString (s : String) : Except Panic (Option ScramCredential) := OptionT.run do
  let parts := s.toList.splitOn '$'
  let (part, parts) ← OptionT.mk (pure (nextPart parts))
  if part ≠ mechanismName then failure
  else
    let (part, parts) ← OptionT.mk (pure (nextPart parts))
    let iterations ← OptionT.mk (pure (fromStrRadix 10 (2 ^ 32) part))
    let (part, parts) ← OptionT.mk (pure (nextPart parts))
    let salt ← fromHex part
    let (part, parts) ← OptionT.mk (pure (nextPart parts))
    let stored ← fromHex part
    let storedKey ← OptionT.mk (pure (Digest.ofBytes stored))
    let (part, parts) ← OptionT.mk (pure (nextPart parts))
    let server ← fromHex part
    let serverKey ← OptionT.mk (pure (Digest.ofBytes server))
    if (nextPart parts).isSome then failure
    else pure ⟨salt, UInt32.ofNat iterations, storedKey, serverKey⟩

/-! ## Reading the forms back -/

/-- The fields of both text forms are made of digits, so neither of the separators occurs in
them. -/
theorem fields_free (c : ScramCredential) (sep : Char) (hsep : ¬ IsHexDigit sep) :
    sep ∉ Nat.toDigits 10 c.iterations.toNat ∧ ∀ bytes, sep ∉ hexText bytes :=
  ⟨not_mem_of_digits (fun _ => isHexDigit_of_mem_toDigits) hsep,
    fun _ => not_mem_of_digits (fun _ => isHexDigit_of_mem_hexText) hsep⟩

/-- Cutting the storage form at the dollar signs gives its five fields back. -/
theorem splitOn_toStorageString (c : ScramCredential) :
    c.toStorageString.toList.splitOn '$' = [mechanismName,
      Nat.toDigits 10 c.iterations.toNat, hexText c.salt, hexText c.storedKey.bytes,
      hexText c.serverKey.bytes] := by
  have hname : '$' ∉ mechanismName := by decide
  obtain ⟨hnum, hhex⟩ := c.fields_free '$' (by decide)
  rw [toStorageString, String.toList_ofList]
  simp only [List.splitOn_append_cons_self, List.splitOn_eq_singleton hname,
    List.splitOn_eq_singleton hnum, List.splitOn_eq_singleton (hhex _), List.singleton_append]

/-- A verifier is read back from its storage form. -/
theorem fromStorageString_toStorageString (c : ScramCredential) :
    fromStorageString c.toStorageString = .ok (some c) := by
  have hhex (bytes : List UInt8) : fromHex (hexText bytes) = pure bytes := unhex_hexText bytes
  have hiterations : fromStrRadix 10 (2 ^ 32) (Nat.toDigits 10 c.iterations.toNat) =
      some c.iterations.toNat := fromStrRadix_toDigits c.iterations.toNat_lt
  unfold fromStorageString
  rw [splitOn_toStorageString]
  simp only [OptionT.run, OptionT.mk, bind, OptionT.bind, Except.bind, pure, OptionT.pure,
    Except.pure, nextPart, hiterations, hhex, Digest.ofBytes_bytes, Option.isSome_none,
    Bool.false_eq_true, if_false, UInt32.ofNat_toNat, ne_eq, not_true_eq_false]

/-! ## The forms apart -/

/-- The reader of the form with colons refuses the storage form. -/
theorem decode_toStorageString (c : ScramCredential) : decode c.toStorageString = .ok none := by
  have hname : ':' ∉ mechanismName := by decide
  obtain ⟨hnum, hhex⟩ := c.fields_free ':' (by decide)
  have hfree : ':' ∉ c.toStorageString.toList := by
    rw [toStorageString, String.toList_ofList]
    simp [hname, hnum, hhex]
  have hparts : c.toStorageString.toList.splitOn ':' = [c.toStorageString.toList] :=
    List.splitOn_eq_singleton hfree
  -- The whole text is the iteration count, and begins with a letter.
  have hcount : fromStrRadix 10 (2 ^ 32) c.toStorageString.toList = none := by
    rw [toStorageString, String.toList_ofList]
    rfl
  unfold decode
  rw [hparts]
  simp only [OptionT.run, OptionT.mk, bind, OptionT.bind, Except.bind, pure, Except.pure, nextPart,
    hcount]

/-- The reader of the storage form refuses the form with colons. -/
theorem fromStorageString_encode (c : ScramCredential) :
    fromStorageString c.encode = .ok none := by
  obtain ⟨hnum, hhex⟩ := c.fields_free '$' (by decide)
  have hfree : '$' ∉ c.encode.toList := by
    rw [encode, String.toList_ofList]
    simp [hnum, hhex]
  have hparts : c.encode.toList.splitOn '$' = [c.encode.toList] :=
    List.splitOn_eq_singleton hfree
  -- The whole text has colons and the name of the mechanism has none.
  have hname : c.encode.toList ≠ mechanismName := by
    intro heq
    have hcolon : ':' ∈ c.encode.toList := by
      rw [encode, String.toList_ofList]
      simp
    rw [heq] at hcolon
    exact absurd hcolon (by decide)
  unfold fromStorageString
  rw [hparts]
  simp only [OptionT.run, OptionT.mk, bind, OptionT.bind, Except.bind, pure, Except.pure, nextPart,
    if_pos hname]
  rfl

/-- **Stored verifiers.** A verifier is read back from both of its texts, and neither text is
accepted by the reader of the other. -/
theorem stored_forms_read_back (c : ScramCredential) :
    (decode c.encode = .ok (some c) ∧ fromStorageString c.toStorageString = .ok (some c)) ∧
      decode c.toStorageString = .ok none ∧ fromStorageString c.encode = .ok none :=
  ⟨⟨c.decode_encode, c.fromStorageString_toStorageString⟩, c.decode_toStorageString,
    c.fromStorageString_encode⟩

end ScramCredential

end Skaidb

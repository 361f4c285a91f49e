import Skaidb.Codec.Tlv
import Skaidb.Types.Value

/-!
# The hash of a channel binding

Both ends of a handshake inside TLS bind it to the server's certificate by a hash of the
certificate. Which hash is used depends on the algorithm that the certificate is signed with,
which is found by a walk over its elements. The walk must not stop the program on any bytes,
and it must find the algorithm in every certificate, however its lengths are written.
-/

namespace Skaidb

open Codec

/-- Why the walk over a certificate does not go on: it finds another form, or it would panic. -/
inductive WalkStop where
  /-- The bytes are not of the form that is looked for. -/
  | absent
  /-- A slice is out of bounds. -/
  | bounds
  /-- A number does not fit 64 bits. -/
  | overflow
  deriving DecidableEq

/-- A walk over the bytes of a certificate, which may stop early or panic. -/
abbrev DerWalk (α : Type) := Except WalkStop α

namespace ChannelBinding

/-! ## Operations on sizes and slices -/

/-- The byte at a position, if there is one. -/
def byteAt (b : List UInt8) (i : ℕ) : DerWalk UInt8 :=
  match b[i]? with
  | some byte => .ok byte
  | none => .error .absent

/-- The sum of two sizes, which must fit. -/
def addSize (m n : ℕ) : DerWalk ℕ := if m + n < 2 ^ 64 then .ok (m + n) else .error .overflow

/-- The sum of two sizes, which is absent when it does not fit. -/
def checkedAdd (m n : ℕ) : DerWalk ℕ := if m + n < 2 ^ 64 then .ok (m + n) else .error .absent

/-- A size moved up by eight bits, of which none may be lost. -/
def shiftByte (n : ℕ) : DerWalk ℕ :=
  if n * 2 ^ 8 < 2 ^ 64 then .ok (n * 2 ^ 8) else .error .overflow

/-- The bytes between two positions, which must be in bounds. -/
def slice (b : List UInt8) (start stop : ℕ) : DerWalk (List UInt8) :=
  if start ≤ stop ∧ stop ≤ b.length then .ok ((b.take stop).drop start) else .error .bounds

/-! ## The walk -/

/-- The number in the `n` bytes behind the first two. -/
def longLength (b : List UInt8) (n : ℕ) : DerWalk ℕ :=
  (List.range n).foldlM (fun len i => do
    let pos ← addSize 2 i
    let byte ← byteAt b pos
    let shifted ← shiftByte len
    pure (shifted ||| byte.toNat)) 0

/-- The length of an element's contents and of what is in front of them. -/
def lengthAndHeader (b : List UInt8) (first : UInt8) : DerWalk (ℕ × ℕ) :=
  if first &&& 0x80 = 0 then pure (first.toNat, 2)
  else do
    let n := (first &&& 0x7F).toNat
    if n = 0 ∨ n > 4 then .error .absent
    else do
      let len ← longLength b n
      let hdr ← addSize 2 n
      pure (len, hdr)

/-- The first element: its tag and its contents, and what follows it. -/
def tlv (b : List UInt8) : DerWalk ((UInt8 × List UInt8) × List UInt8) := do
  let tag ← byteAt b 0
  let first ← byteAt b 1
  let (len, hdr) ← lengthAndHeader b first
  let stop ← checkedAdd hdr len
  if stop > b.length then .error .absent
  else do
    let content ← slice b hdr stop
    let rest ← slice b stop b.length
    pure ((tag, content), rest)

/-- The identifier of the algorithm that a certificate is signed with. -/
def signatureOid (der : List UInt8) : DerWalk (List UInt8) := do
  let ((_, cert), _) ← tlv der
  let ((_, _), rest) ← tlv cert
  let ((_, alg), _) ← tlv rest
  let ((tag, oid), _) ← tlv alg
  if tag = 0x06 then pure oid else .error .absent

/-- The hashes that the binding of a channel may be made with. -/
inductive SigHash where
  | sha256
  | sha384
  | sha512
  deriving DecidableEq

/-- The identifier of `sha384WithRSAEncryption`, as it stands in a certificate. -/
def sha384WithRsa : List UInt8 := [0x2A, 0x86, 0x48, 0x86, 0xF7, 0x0D, 0x01, 0x01, 0x0C]

/-- The identifier of `ecdsa-with-SHA384`, as it stands in a certificate. -/
def ecdsaWithSha384 : List UInt8 := [0x2A, 0x86, 0x48, 0xCE, 0x3D, 0x04, 0x03, 0x03]

/-- The identifier of `sha512WithRSAEncryption`, as it stands in a certificate. -/
def sha512WithRsa : List UInt8 := [0x2A, 0x86, 0x48, 0x86, 0xF7, 0x0D, 0x01, 0x01, 0x0D]

/-- The identifier of `ecdsa-with-SHA512`, as it stands in a certificate. -/
def ecdsaWithSha512 : List UInt8 := [0x2A, 0x86, 0x48, 0xCE, 0x3D, 0x04, 0x03, 0x04]

/-- The hash for the signature algorithm with an identifier; SHA-256 for those not listed, and for
none. -/
def hashOfOid (oid : Option (List UInt8)) : SigHash :=
  if oid = some sha384WithRsa ∨ oid = some ecdsaWithSha384 then .sha384
  else if oid = some sha512WithRsa ∨ oid = some ecdsaWithSha512 then .sha512
  else .sha256

/-- The hash of a certificate's signature algorithm. It is SHA-256 for anything that is not
recognised, and there is none when the walk goes out of bounds or overflows. -/
def signatureHash (der : List UInt8) : DerWalk SigHash :=
  match signatureOid der with
  | .ok oid => .ok (hashOfOid (some oid))
  | .error .absent => .ok (hashOfOid none)
  | .error e => .error e

/-- The data of a channel binding, with the hash functions given. -/
def tlsServerEndPoint (digest : SigHash → List UInt8 → List UInt8) (der : List UInt8) :
    DerWalk (List UInt8) := do
  let hash ← signatureHash der
  pure (utf8 "tls-server-end-point:" ++ digest hash der)

/-! ## The walk stays in bounds -/

/-- The walk returns something with a property, or finds the bytes of another form. -/
def Ends {α : Type} (walk : DerWalk α) (P : α → Prop) : Prop :=
  (∃ a, walk = .ok a ∧ P a) ∨ walk = .error .absent

/-- A walk that returns ends without a panic, with what holds of its result. -/
theorem Ends.ok {α : Type} {P : α → Prop} {a : α} (h : P a) : Ends (.ok a) P := Or.inl ⟨a, rfl, h⟩

/-- Walks in sequence end without a panic when each of them does on what the one before returns. -/
theorem Ends.bind {α β : Type} {walk : DerWalk α} {f : α → DerWalk β} {P : α → Prop}
    {Q : β → Prop} (h : Ends walk P) (hf : ∀ a, P a → Ends (f a) Q) : Ends (walk >>= f) Q := by
  rcases h with ⟨a, rfl, ha⟩ | rfl
  · exact hf a ha
  · exact Or.inr rfl

/-- Looking at a position gives the byte there, or the walk stops because there is none. -/
theorem byteAt_ends (b : List UInt8) (i : ℕ) : Ends (byteAt b i) fun byte => b[i]? = some byte := by
  unfold byteAt
  split
  · next byte hbyte => exact Ends.ok hbyte
  · exact Or.inr rfl

/-- Reading a length of at most four bytes does not panic, and a number it returns is below what
that many bytes can hold. -/
theorem longLength_ends (b : List UInt8) {n : ℕ} (hn : n ≤ 4) :
    Ends (longLength b n) fun len => len < 256 ^ n := by
  induction n with
  | zero => exact Ends.ok (by decide)
  | succ n ih =>
    unfold longLength
    rw [List.range_succ, List.foldlM_append]
    refine (ih (by omega)).bind fun len hlen => ?_
    have hbound : len < 256 ^ 3 := lt_of_lt_of_le hlen (Nat.pow_le_pow_right (by decide) (by omega))
    have hpos : addSize 2 n = .ok (2 + n) := if_pos (by omega)
    have hshift : shiftByte len = .ok (len * 2 ^ 8) := if_pos (by omega)
    rw [List.foldlM_cons, hpos]
    refine Ends.bind (P := fun len => len < 256 ^ (n + 1)) ?_ fun len hlen => Ends.ok hlen
    refine (byteAt_ends b (2 + n)).bind fun byte _ => ?_
    rw [hshift]
    have hbyte : byte.toNat < 256 := byte.toNat_lt
    refine Ends.ok ?_
    rw [shift_or_byte, pow_succ]
    omega

/-- The length and what is in front of the contents fit. -/
theorem lengthAndHeader_ends (b : List UInt8) (first : UInt8) :
    Ends (lengthAndHeader b first) fun result => result.1 < 256 ^ 4 ∧ result.2 ≤ 6 := by
  unfold lengthAndHeader
  split
  · have hfirst : first.toNat < 256 := first.toNat_lt
    exact Ends.ok ⟨by dsimp only; omega, by dsimp only; omega⟩
  · dsimp only
    split
    · exact Or.inr rfl
    · next hwidth =>
      have hle : (first &&& 0x7F).toNat ≤ 4 := by omega
      refine (longLength_ends b hle).bind fun len hlen => ?_
      have hhdr : addSize 2 (first &&& 0x7F).toNat = .ok (2 + (first &&& 0x7F).toNat) :=
        if_pos (by omega)
      rw [hhdr]
      refine Ends.ok ⟨lt_of_lt_of_le hlen (Nat.pow_le_pow_right (by decide) hle), ?_⟩
      dsimp only
      omega

/-- An element is found within the bytes, or not. -/
theorem tlv_ends (b : List UInt8) : Ends (tlv b) fun _ => True := by
  refine (byteAt_ends b 0).bind fun tag _ => (byteAt_ends b 1).bind fun first _ => ?_
  refine (lengthAndHeader_ends b first).bind fun result hresult => ?_
  obtain ⟨len, hdr⟩ := result
  obtain ⟨hlen, hhdr⟩ := hresult
  dsimp only at hlen hhdr ⊢
  have hadd : checkedAdd hdr len = .ok (hdr + len) := if_pos (by omega)
  rw [hadd]
  change Ends (if hdr + len > b.length then _ else _) _
  split
  · exact Or.inr rfl
  · next hfits =>
    have hcontent : slice b hdr (hdr + len) = .ok ((b.take (hdr + len)).drop hdr) :=
      if_pos ⟨by omega, by omega⟩
    have hrest : slice b (hdr + len) b.length = .ok ((b.take b.length).drop (hdr + len)) :=
      if_pos ⟨by omega, le_rfl⟩
    rw [hcontent, hrest]
    exact Ends.ok trivial

/-- The identifier is found within the bytes, or not. -/
theorem signatureOid_ends (der : List UInt8) : Ends (signatureOid der) fun _ => True := by
  refine (tlv_ends der).bind fun cert _ => (tlv_ends _).bind fun tbs _ => ?_
  refine (tlv_ends _).bind fun alg _ => (tlv_ends _).bind fun oid _ => ?_
  dsimp only
  split
  · exact Ends.ok trivial
  · exact Or.inr rfl

/-- Whatever bytes a peer sends for its certificate, a hash is chosen and nothing panics. -/
theorem exists_signatureHash (der : List UInt8) : ∃ hash, signatureHash der = .ok hash := by
  unfold signatureHash
  rcases signatureOid_ends der with ⟨oid, hoid, -⟩ | hoid
  · exact ⟨hashOfOid (some oid), by rw [hoid]⟩
  · exact ⟨hashOfOid none, by rw [hoid]⟩

/-! ## Elements are read back -/

/-- A length in the long form is the number in its bytes, if they are all there. -/
theorem longLength_of_length {b : List UInt8} {n : ℕ} (hn : n ≤ 4) (hb : 2 + n ≤ b.length) :
    longLength b n = .ok (ofBeBytes ((b.drop 2).take n)) := by
  induction n with
  | zero => rfl
  | succ n ih =>
    have hfront := ih (by omega) (by omega)
    have hlen : ofBeBytes ((b.drop 2).take n) < 256 ^ 3 := by
      rcases longLength_ends b (show n ≤ 4 by omega) with ⟨len, hok, hlen⟩ | habsent
      · rw [hfront] at hok
        obtain rfl := Except.ok.inj hok
        exact lt_of_lt_of_le hlen (Nat.pow_le_pow_right (by decide) (by omega))
      · rw [hfront] at habsent
        cases habsent
    have hpos : addSize 2 n = .ok (2 + n) := if_pos (by omega)
    have hlt : 2 + n < b.length := by omega
    have hbyte : byteAt b (2 + n) = .ok b[2 + n] := by
      simp only [byteAt, List.getElem?_eq_getElem hlt]
    have hshift : shiftByte (ofBeBytes ((b.drop 2).take n)) =
        .ok (ofBeBytes ((b.drop 2).take n) * 2 ^ 8) := if_pos (by omega)
    have htake : (b.drop 2).take (n + 1) = (b.drop 2).take n ++ [b[2 + n]] := by
      rw [List.take_succ_eq_append_getElem (by simp; omega)]
      simp
    have hfold : (List.range n).foldlM (fun len i => do
        let pos ← addSize 2 i
        let byte ← byteAt b pos
        let shifted ← shiftByte len
        pure (shifted ||| byte.toNat)) 0 = .ok (ofBeBytes ((b.drop 2).take n)) := hfront
    unfold longLength
    rw [List.range_succ, List.foldlM_append, hfold, htake, ofBeBytes_append_singleton,
      ← shift_or_byte]
    simp only [List.foldlM_cons, List.foldlM_nil, bind, Except.bind, hpos, hbyte, hshift, pure,
      Except.pure]

/-- The length of an element is read from its bytes. -/
theorem lengthAndHeader_bytes (e : Element) (rest : List UInt8) :
    ∃ first, byteAt (e.bytes ++ rest) 1 = .ok first ∧
      lengthAndHeader (e.bytes ++ rest) first =
        .ok (e.content.length, 1 + (e.form.bytes e.content.length).length) := by
  obtain ⟨tag, form, content, hfits⟩ := e
  cases form with
  | short =>
    obtain ⟨hclear, hvalue⟩ := short_first hfits
    refine ⟨UInt8.ofNat content.length, rfl, ?_⟩
    rw [lengthAndHeader, if_pos hclear, hvalue]
    rfl
  | long width =>
    obtain ⟨hpos, hwidth, hlen⟩ := hfits
    obtain ⟨hset, hvalue⟩ := long_first hwidth
    refine ⟨UInt8.ofNat (128 + width), rfl, ?_⟩
    have hnumber : longLength (Element.bytes ⟨tag, .long width, content, ⟨hpos, hwidth, hlen⟩⟩ ++
        rest) width = .ok content.length := by
      rw [longLength_of_length hwidth (by simp [Element.bytes, LengthForm.bytes]; omega)]
      have hdrop :
          (Element.bytes ⟨tag, .long width, content, ⟨hpos, hwidth, hlen⟩⟩ ++ rest).drop 2 =
            beBytes width content.length ++ (content ++ rest) := by
        simp [Element.bytes, LengthForm.bytes]
      rw [hdrop, List.take_left' (length_beBytes _ _), ofBeBytes_beBytes, Nat.mod_eq_of_lt hlen]
    have hadd : addSize 2 width = .ok (2 + width) := if_pos (by omega)
    rw [lengthAndHeader, if_neg hset]
    simp only [hvalue]
    rw [if_neg (by omega), hnumber, hadd]
    simp [LengthForm.bytes, bind, Except.bind, pure, Except.pure]
    omega

/-- An element is read from its bytes, whatever follows it. -/
theorem tlv_bytes (e : Element) (rest : List UInt8) :
    tlv (e.bytes ++ rest) = .ok ((e.tag, e.content), rest) := by
  obtain ⟨first, hfirst, hlength⟩ := lengthAndHeader_bytes e rest
  have hbounds : e.content.length < 256 ^ 4 ∧ 1 + (e.form.bytes e.content.length).length ≤ 6 := by
    rcases lengthAndHeader_ends (e.bytes ++ rest) first with ⟨result, hok, hresult⟩ | habsent
    · rw [hlength] at hok
      obtain rfl := Except.ok.inj hok
      exact hresult
    · rw [hlength] at habsent
      cases habsent
  have htag : byteAt (e.bytes ++ rest) 0 = .ok e.tag := rfl
  set front : List UInt8 := e.tag :: e.form.bytes e.content.length with hfront
  have hwhole : e.bytes ++ rest = front ++ e.content ++ rest := by simp [Element.bytes, hfront]
  have hheader : 1 + (e.form.bytes e.content.length).length = front.length := by
    simp only [hfront, List.length_cons]
    omega
  rw [hheader] at hlength hbounds
  have hstop : checkedAdd front.length e.content.length =
      .ok (front.length + e.content.length) := if_pos (by omega)
  have hlen : (e.bytes ++ rest).length = front.length + e.content.length + rest.length := by
    rw [hwhole, List.length_append, List.length_append]
  have hcontent : slice (e.bytes ++ rest) front.length (front.length + e.content.length) =
      .ok e.content := by
    rw [slice, if_pos ⟨by omega, by omega⟩, hwhole, ← List.length_append, List.take_left' rfl,
      List.drop_left' rfl]
  have hrest : slice (e.bytes ++ rest) (front.length + e.content.length)
      (e.bytes ++ rest).length = .ok rest := by
    rw [slice, if_pos ⟨by omega, le_rfl⟩, List.take_length, hwhole, ← List.length_append,
      List.drop_left' rfl]
  have hin : ¬ front.length + e.content.length > (e.bytes ++ rest).length := by omega
  simp only [tlv, bind, Except.bind, htag, hfirst, hlength, hstop, if_neg hin, hcontent, hrest,
    pure, Except.pure]

/-! ## Certificates -/

/-- A certificate: an outer element with the element that is signed, the element of the
signature algorithm and anything behind them. The algorithm starts with its identifier. -/
structure Certificate where
  /-- The element around the whole certificate. -/
  outer : Element
  /-- The part of the certificate that is signed. -/
  tbs : Element
  /-- The element that names the signature algorithm. -/
  algorithm : Element
  /-- The identifier of the algorithm. -/
  oid : Element
  /-- The parameters of the algorithm. -/
  parameters : List UInt8
  /-- What follows the algorithm. -/
  tail : List UInt8
  /-- What follows the outer element. -/
  trailing : List UInt8
  /-- The tag of an identifier. -/
  oid_tag : oid.tag = 0x06
  /-- The algorithm starts with its identifier. -/
  algorithm_content : algorithm.content = oid.bytes ++ parameters
  /-- The outer element starts with what is signed and the algorithm. -/
  outer_content : outer.content = tbs.bytes ++ (algorithm.bytes ++ tail)

/-- The bytes of a certificate, with whatever stands behind it. -/
def Certificate.der (c : Certificate) : List UInt8 := c.outer.bytes ++ c.trailing

/-- The walk over the DER bytes of a certificate finds the identifier of its signature algorithm. -/
theorem signatureOid_der (c : Certificate) : signatureOid c.der = .ok c.oid.content := by
  have houter := tlv_bytes c.outer c.trailing
  have htbs :
      tlv c.outer.content = .ok ((c.tbs.tag, c.tbs.content), c.algorithm.bytes ++ c.tail) := by
    rw [c.outer_content]
    exact tlv_bytes c.tbs _
  have halgorithm := tlv_bytes c.algorithm c.tail
  have hoid : tlv c.algorithm.content = .ok ((c.oid.tag, c.oid.content), c.parameters) := by
    rw [c.algorithm_content]
    exact tlv_bytes c.oid c.parameters
  simp only [signatureOid, Certificate.der, bind, Except.bind, houter, htbs, halgorithm, hoid,
    c.oid_tag, if_true, pure, Except.pure]

/-- The hash chosen for a certificate is the one that its algorithm's identifier stands for. -/
theorem signatureHash_der (c : Certificate) :
    signatureHash c.der = .ok (hashOfOid (some c.oid.content)) := by
  rw [signatureHash, signatureOid_der]

/-- The larger hashes are chosen for the identifiers listed, and for no others. -/
theorem hashOfOid_iff (o : List UInt8) :
    (hashOfOid (some o) = .sha384 ↔ o = ecdsaWithSha384 ∨ o = sha384WithRsa) ∧
    (hashOfOid (some o) = .sha512 ↔ o = ecdsaWithSha512 ∨ o = sha512WithRsa) := by
  have hne : ∀ x ∈ [sha384WithRsa, ecdsaWithSha384], x ≠ sha512WithRsa ∧ x ≠ ecdsaWithSha512 := by
    decide
  unfold hashOfOid
  simp only [Option.some.injEq]
  split
  · next h =>
    have hother : ¬ (o = ecdsaWithSha512 ∨ o = sha512WithRsa) := by
      obtain ⟨hrsa, hecdsa⟩ := hne o (by simpa using h)
      tauto
    simp only [true_iff, reduceCtorEq, false_iff]
    exact ⟨h.symm, hother⟩
  · next h =>
    split
    · next h' =>
      simp only [true_iff, reduceCtorEq, false_iff]
      exact ⟨fun hor => h hor.symm, h'.symm⟩
    · next h' =>
      simp only [reduceCtorEq, false_iff]
      exact ⟨fun hor => h hor.symm, fun hor => h' hor.symm⟩

/-- **The hash of a channel binding.** On all bytes the walk stays in bounds and no size
overflows, so that a hash is chosen and the binding is made of it. For every certificate, with
its lengths in the short form or in long forms of up to four bytes, the hash is SHA-384 exactly
when the algorithm is one of the two with SHA-384, SHA-512 exactly when it is one of the two
with SHA-512, and SHA-256 otherwise. -/
theorem signatureHash_correct :
    (∀ der, ∃ hash, signatureHash der = .ok hash ∧ ∀ digest,
      tlsServerEndPoint digest der = .ok (utf8 "tls-server-end-point:" ++ digest hash der)) ∧
    ∀ c : Certificate,
      (signatureHash c.der = .ok .sha384 ↔
        c.oid.content = ecdsaWithSha384 ∨ c.oid.content = sha384WithRsa) ∧
      (signatureHash c.der = .ok .sha512 ↔
        c.oid.content = ecdsaWithSha512 ∨ c.oid.content = sha512WithRsa) ∧
      (signatureHash c.der = .ok .sha256 ↔
        ¬ (c.oid.content = ecdsaWithSha384 ∨ c.oid.content = sha384WithRsa) ∧
        ¬ (c.oid.content = ecdsaWithSha512 ∨ c.oid.content = sha512WithRsa)) := by
  refine ⟨fun der => ?_, fun c => ?_⟩
  · obtain ⟨hash, hhash⟩ := exists_signatureHash der
    exact ⟨hash, hhash, fun digest => by rw [tlsServerEndPoint, hhash]; rfl⟩
  · obtain ⟨h384, h512⟩ := hashOfOid_iff c.oid.content
    rw [signatureHash_der]
    simp only [Except.ok.injEq, ← h384, ← h512, true_and]
    cases hashOfOid (some c.oid.content) <;> simp

/-- A certificate signed with ECDSA and SHA-384, as short as can be; the outer length is in the
long form. -/
def p384Certificate : Certificate where
  outer := ⟨0x30, .long 1, [0x30, 0x00, 0x30, 0x0A, 0x06, 0x08] ++ ecdsaWithSha384, by decide⟩
  tbs := ⟨0x30, .short, [], by decide⟩
  algorithm := ⟨0x30, .short, [0x06, 0x08] ++ ecdsaWithSha384, by decide⟩
  oid := ⟨0x06, .short, ecdsaWithSha384, by decide⟩
  parameters := []
  tail := []
  trailing := []
  oid_tag := rfl
  algorithm_content := by decide
  outer_content := by decide

/-- The bytes of this certificate, and the hash of its channel binding, which is SHA-384 as its
algorithm asks for. -/
theorem p384Certificate_hash :
    p384Certificate.der = [0x30, 0x81, 0x0E, 0x30, 0x00, 0x30, 0x0A, 0x06, 0x08, 0x2A, 0x86, 0x48,
      0xCE, 0x3D, 0x04, 0x03, 0x03] ∧
    signatureHash p384Certificate.der = .ok .sha384 :=
  ⟨by decide, (signatureHash_correct.2 p384Certificate).1.mpr (.inl rfl)⟩

end ChannelBinding

end Skaidb

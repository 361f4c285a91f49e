import Skaidb.Types.Slice

/-!
# UUIDs as text

A UUID is written as its 32 hexadecimal digits with four hyphens, and is read from a text by
leaving out the hyphens and reading sixteen pairs. The length is checked in bytes and the
pairs are slices of two bytes, each of them read as an unsigned number, so a character that
reaches over the end of a pair stops the program and a pair may be a plus sign and a digit.
-/

namespace Skaidb

open Codec

namespace Uuid

/-- `Uuid::parse_str`: read a UUID from its text without the hyphens, two digits at a time. -/
def parseStr (s : String) : Except Panic (Except ValueError Uuid) :=
  let hex := s.toList.filter (· ≠ '-')
  if byteLength hex ≠ 32 then .ok (.error (.invalidUuid s))
  else
    match h : (unhexPairs 16 hex).run with
    | .error panic => .error panic
    | .ok none => .ok (.error (.invalidUuid s))
    | .ok (some bytes) => .ok (.ok ⟨bytes, length_of_run_unhexPairs h⟩)

/-- `Display for Uuid`: hexadecimal digits in five groups with a hyphen between them. -/
def display (u : Uuid) : String :=
  let b := u.bytes
  String.ofList (hexText (b.take 4) ++ '-' :: (hexText ((b.drop 4).take 2) ++ '-' ::
    (hexText ((b.drop 6).take 2) ++ '-' :: (hexText ((b.drop 8).take 2) ++ '-' ::
      hexText (b.drop 10)))))

/-! ## Pairs of digits -/

/-- The character is a hexadecimal digit, as `u8::from_str_radix` accepts it. -/
def HexDigit (c : Char) : Prop := (toDigit 16 c).isSome

instance decidableHexDigit (c : Char) : Decidable (HexDigit c) :=
  inferInstanceAs (Decidable (_ = true))

/-- The text consists of pairs that are read as numbers: two digits, or a plus sign and a
digit. -/
def Pairs : List Char → Prop
  | [] => True
  | [_] => False
  | c :: d :: text => (c = '+' ∨ HexDigit c) ∧ HexDigit d ∧ Pairs text

/-- After pairs that are read as numbers, a character reaches over the end of the next two
bytes. -/
def Straddled : List Char → Prop
  | [] => False
  | [c] => 2 < c.utf8Size
  | c :: d :: text => 2 < c.utf8Size ∨ c.utf8Size = 1 ∧ 1 < d.utf8Size ∨
    ((c = '+' ∨ HexDigit c) ∧ HexDigit d) ∧ Straddled text

/-- The hexadecimal digits of bytes as numbers below sixteen, two for each byte. -/
def nibbles (bytes : List UInt8) : List ℕ :=
  bytes.flatMap fun b => [b.toNat / 16, b.toNat % 16]

/-- What reading pairs of a text of as many bytes comes to. -/
inductive PairsOutcome (text : List Char) : Except Panic (Option (List UInt8)) → Prop where
  | panicked (h : Straddled text) : PairsOutcome text (.error .sliceBoundary)
  | refused (hfree : ¬ Straddled text) (h : ¬ Pairs text) : PairsOutcome text (.ok none)
  | accepted (hfree : ¬ Straddled text) (h : Pairs text) (bytes : List UInt8)
      (hdigits : '+' ∉ text → text.mapM (toDigit 16) = some (nibbles bytes)) :
      PairsOutcome text (.ok (some bytes))

/-- A hexadecimal digit takes one byte, so that no slice cuts through it. -/
theorem HexDigit.utf8Size {c : Char} (h : HexDigit c) : c.utf8Size = 1 := by
  obtain ⟨n, hn⟩ := Option.isSome_iff_exists.mp h
  exact (utf8Size_of_toDigit hn).1

/-- The first character of a pair that is read as a number is written in one byte. -/
theorem utf8Size_of_plus_or_digit {c : Char} (h : c = '+' ∨ HexDigit c) : c.utf8Size = 1 := by
  rcases h with rfl | hdigit
  · rfl
  · exact hdigit.utf8Size

/-- A character of two bytes in a slice of its own is no number. -/
theorem fromStrRadix_wide {c : Char} (hc : c.utf8Size = 2) : fromStrRadix 16 256 [c] = none := by
  have hplus : c ≠ '+' := by
    rintro rfl
    exact absurd hc (by decide)
  have hdigit : toDigit 16 c = none := by
    by_contra hsome
    have hsize := HexDigit.utf8Size (Option.isSome_iff_ne_none.mpr hsome)
    omega
  have hdigits : fromStrRadix 16 256 [c] = [c].foldlM (readDigit 16 256) 0 := by
    unfold fromStrRadix
    split <;> simp_all
  rw [hdigits]
  simp [readDigit, hdigit]

/-- Two characters are read as a number when they are a pair. -/
theorem fromStrRadix_pair_eq_none_iff {c d : Char} :
    fromStrRadix 16 256 [c, d] = none ↔ ¬ ((c = '+' ∨ HexDigit c) ∧ HexDigit d) := by
  rw [fromStrRadix_pair]
  unfold HexDigit
  by_cases hplus : c = '+'
  · simp [hplus]
  · cases toDigit 16 c <;> cases toDigit 16 d <;> simp [hplus]

/-- The digits of a pair without a plus sign are those of its byte. -/
theorem nibbles_of_pair {c d : Char} {byte : ℕ} (hplus : c ≠ '+')
    (h : fromStrRadix 16 256 [c, d] = some byte) (bytes : List UInt8) :
    ∃ high low, toDigit 16 c = some high ∧ toDigit 16 d = some low ∧
      nibbles (UInt8.ofNat byte :: bytes) = high :: low :: nibbles bytes := by
  rw [fromStrRadix_pair, if_neg hplus] at h
  obtain ⟨high, hhigh, hrest⟩ := Option.bind_eq_some_iff.mp h
  obtain ⟨low, hlow, rfl⟩ := Option.map_eq_some_iff.mp hrest
  have hhigh' := (utf8Size_of_toDigit hhigh).2
  have hlow' := (utf8Size_of_toDigit hlow).2
  have hnat : (UInt8.ofNat (high * 16 + low)).toNat = high * 16 + low :=
    UInt8.toNat_ofNat_of_lt' (by change _ < 256; omega)
  refine ⟨high, low, hhigh, hlow, ?_⟩
  have hdiv : (high * 16 + low) / 16 = high := by omega
  have hmod : (high * 16 + low) % 16 = low := by omega
  rw [nibbles, List.flatMap_cons, hnat, hdiv, hmod]
  rfl

/-! ## Reading pairs -/

/-- Behind two characters of one byte only the rest can be straddled. -/
theorem straddled_cons_cons {c d : Char} (hc : c.utf8Size = 1) (hd : d.utf8Size = 1)
    (text : List Char) : Straddled (c :: d :: text) ↔
      ((c = '+' ∨ HexDigit c) ∧ HexDigit d) ∧ Straddled text := by
  simp [Straddled, hc, hd]

/-- A pair that is a number is followed by what the rest comes to. -/
theorem PairsOutcome.cons {c d : Char} {text : List Char} {byte : ℕ}
    (hpair : fromStrRadix 16 256 [c, d] = some byte) {outcome : Except Panic (Option (List UInt8))}
    (h : PairsOutcome text outcome) : PairsOutcome (c :: d :: text)
      (outcome.map (Option.map (UInt8.ofNat byte :: ·))) := by
  have hread : (c = '+' ∨ HexDigit c) ∧ HexDigit d := by
    by_contra hnot
    rw [fromStrRadix_pair_eq_none_iff.mpr hnot] at hpair
    cases hpair
  have hstraddled := straddled_cons_cons (utf8Size_of_plus_or_digit hread.1) hread.2.utf8Size text
  cases h with
  | panicked htext => exact .panicked (hstraddled.mpr ⟨hread, htext⟩)
  | refused hfree htext =>
    exact .refused (fun h => hfree (hstraddled.mp h).2) fun h => htext h.2.2
  | accepted hfree htext bytes hdigits =>
    refine .accepted (fun h => hfree (hstraddled.mp h).2) ⟨hread.1, hread.2, htext⟩ _ ?_
    intro hplus
    simp only [List.mem_cons, not_or] at hplus
    obtain ⟨hplus, -, htail⟩ := hplus
    obtain ⟨high, low, hhigh, hlow, hbytes⟩ := nibbles_of_pair (Ne.symm hplus) hpair bytes
    simp [hhigh, hlow, hdigits htail, hbytes]

/-- A character that fills the two bytes of a pair is refused. -/
theorem PairsOutcome.ofWide {c : Char} (hwide : c.utf8Size = 2) (text : List Char) :
    PairsOutcome (c :: text) (.ok none) := by
  have hpair : ¬ (c = '+' ∨ HexDigit c) := fun hpair => by
    have hone := utf8Size_of_plus_or_digit hpair
    omega
  cases text with
  | nil => exact .refused (fun h : 2 < c.utf8Size => by omega) id
  | cons d text =>
    refine .refused ?_ fun hpairs => hpair hpairs.1
    rintro (hlt | ⟨hone, -⟩ | ⟨hfirst, -⟩)
    · omega
    · omega
    · exact hpair hfirst.1

/-- What reading the pairs of a text comes to. -/
theorem pairsOutcome {pairs : ℕ} {text : List Char} (h : byteLength text = 2 * pairs) :
    PairsOutcome text (unhexPairs pairs text).run := by
  induction pairs generalizing text with
  | zero =>
    cases text with
    | nil =>
      have hpairs : Pairs [] := trivial
      exact .accepted id hpairs [] fun _ => rfl
    | cons c text =>
      have hpos := c.utf8Size_pos
      rw [byteLength_cons] at h
      omega
  | succ pairs ih =>
    cases text with
    | nil => exact absurd h (by simp)
    | cons c text =>
      have hc := c.utf8Size_pos
      rw [byteLength_cons] at h
      by_cases hwider : 2 < c.utf8Size
      · rw [run_unhexPairs_of_error (splitAtByte_two_of_wider hwider text)]
        cases text with
        | nil => exact .panicked hwider
        | cons d text => exact .panicked (.inl hwider)
      by_cases hwide : c.utf8Size = 2
      · rw [run_unhexPairs_of_none (splitAtByte_two_of_wide hwide text) (fromStrRadix_wide hwide)]
        exact .ofWide hwide text
      have hone : c.utf8Size = 1 := by omega
      cases text with
      | nil =>
        rw [byteLength_nil] at h
        omega
      | cons d text =>
        have hd := d.utf8Size_pos
        rw [byteLength_cons] at h
        by_cases hsecond : 1 < d.utf8Size
        · rw [run_unhexPairs_of_error (splitAtByte_two_of_wide_second hone hsecond text)]
          exact .panicked (.inr (.inl ⟨hone, hsecond⟩))
        have hone' : d.utf8Size = 1 := by omega
        have hsplit := splitAtByte_two hone hone' text
        cases hpair : fromStrRadix 16 256 [c, d] with
        | none =>
          have hnot := fromStrRadix_pair_eq_none_iff.mp hpair
          rw [run_unhexPairs_of_none hsplit hpair]
          exact .refused (fun h => hnot ((straddled_cons_cons hone hone' text).mp h).1)
            fun h => hnot ⟨h.1, h.2.1⟩
        | some byte =>
          rw [run_unhexPairs_of_some hsplit hpair]
          exact (ih (by omega)).cons hpair

/-! ## The text of a UUID -/

/-- A plus sign is no hexadecimal digit, though `from_str_radix` takes it in front of one. -/
theorem not_hexDigit_plus : ¬ HexDigit '+' := by decide

/-- Pairs without a plus sign are digits, an even number of them. -/
theorem pairs_and_no_plus_iff : (text : List Char) →
    (Pairs text ∧ '+' ∉ text ↔ text.length % 2 = 0 ∧ ∀ c ∈ text, HexDigit c)
  | [] => by simp [Pairs]
  | [c] => by simp [Pairs]
  | c :: d :: text => by
    have ih := pairs_and_no_plus_iff text
    have hlength : (c :: d :: text).length % 2 = text.length % 2 := by
      simp only [List.length_cons]
      omega
    rw [hlength]
    simp only [Pairs, List.mem_cons, not_or, forall_eq_or_imp]
    constructor
    · rintro ⟨⟨hc, hd, hpairs⟩, hplus, -, htail⟩
      obtain ⟨heven, hdigits⟩ := ih.mp ⟨hpairs, htail⟩
      exact ⟨heven, hc.resolve_left (Ne.symm hplus), hd, hdigits⟩
    · rintro ⟨heven, hc, hd, hdigits⟩
      obtain ⟨hpairs, htail⟩ := ih.mpr ⟨heven, hdigits⟩
      have hplus {x : Char} (hx : HexDigit x) : '+' ≠ x := by
        rintro rfl
        exact not_hexDigit_plus hx
      exact ⟨⟨.inr hc, hd, hpairs⟩, hplus hc, hplus hd, htail⟩

/-- A text is read without a panic, exactly when it has 32 digits besides hyphens, and as the
bytes of these digits. -/
structure ParsesExactly (s : String) : Prop where
  /-- The program goes on. -/
  returns : ∃ result, parseStr s = .ok result
  /-- A UUID is read exactly from 32 digits. -/
  accepted : (∃ u, parseStr s = .ok (.ok u)) ↔
    (s.toList.filter (· ≠ '-')).length = 32 ∧ ∀ c ∈ s.toList.filter (· ≠ '-'), HexDigit c
  /-- Its bytes are these digits. -/
  value : ∀ u, parseStr s = .ok (.ok u) →
    (s.toList.filter (· ≠ '-')).mapM (toDigit 16) = some (nibbles u.bytes)

/-- The result of reading 32 bytes is that of reading the pairs. -/
theorem parseStr_of_length {s : String} (h : byteLength (s.toList.filter (· ≠ '-')) = 32) :
    (unhexPairs 16 (s.toList.filter (· ≠ '-'))).run = .error .sliceBoundary ∧
        parseStr s = .error .sliceBoundary ∨
      (unhexPairs 16 (s.toList.filter (· ≠ '-'))).run = .ok none ∧
        parseStr s = .ok (.error (.invalidUuid s)) ∨
      ∃ u : Uuid, (unhexPairs 16 (s.toList.filter (· ≠ '-'))).run = .ok (some u.bytes) ∧
        parseStr s = .ok (.ok u) := by
  unfold parseStr
  dsimp only
  rw [if_neg (not_not.mpr h)]
  split
  · next panic hrun =>
    cases panic
    exact .inl ⟨hrun, rfl⟩
  · next hrun => exact .inr (.inl ⟨hrun, rfl⟩)
  · next bytes hrun => exact .inr (.inr ⟨⟨bytes, length_of_run_unhexPairs hrun⟩, hrun, rfl⟩)

/-- A refusal is exact when there are not 32 digits. -/
theorem parsesExactly_of_refused {s : String} (h : parseStr s = .ok (.error (.invalidUuid s)))
    (hdigits : ¬ ((s.toList.filter (· ≠ '-')).length = 32 ∧
      ∀ c ∈ s.toList.filter (· ≠ '-'), HexDigit c)) : ParsesExactly s := by
  refine ⟨⟨_, h⟩, iff_of_false ?_ hdigits, ?_⟩
  · rintro ⟨u, hu⟩
    rw [h] at hu
    cases hu
  · intro u hu
    rw [h] at hu
    cases hu

/-- A text is read exactly unless it has 32 bytes besides hyphens and a character straddles a
pair, or all pairs are numbers and one has a plus sign. -/
theorem parsesExactly_iff (s : String) :
    ParsesExactly s ↔ (byteLength (s.toList.filter (· ≠ '-')) = 32 →
      ¬ Straddled (s.toList.filter (· ≠ '-')) ∧
        ¬ (Pairs (s.toList.filter (· ≠ '-')) ∧ '+' ∈ s.toList.filter (· ≠ '-'))) := by
  by_cases hlength : byteLength (s.toList.filter (· ≠ '-')) = 32
  · have houtcome : PairsOutcome _ (unhexPairs 16 (s.toList.filter (· ≠ '-'))).run :=
      pairsOutcome hlength
    rcases parseStr_of_length hlength with ⟨hrun, hparse⟩ | ⟨hrun, hparse⟩ | ⟨u, hrun, hparse⟩
    · rw [hrun] at houtcome
      cases houtcome with
      | panicked hstraddled =>
        refine iff_of_false (fun h => ?_) fun h => (h hlength).1 hstraddled
        obtain ⟨result, hresult⟩ := h.returns
        rw [hparse] at hresult
        cases hresult
    · rw [hrun] at houtcome
      cases houtcome with
      | refused hfree hpairs =>
        refine iff_of_true (parsesExactly_of_refused hparse ?_) fun _ => ?_
        · rintro ⟨hlen, hdigits⟩
          exact hpairs ((pairs_and_no_plus_iff _).mpr ⟨by omega, hdigits⟩).1
        · exact ⟨hfree, fun h => hpairs h.1⟩
    · rw [hrun] at houtcome
      cases houtcome with
      | accepted hfree hpairs _ hvalue =>
        by_cases hplus : '+' ∈ s.toList.filter (· ≠ '-')
        · refine iff_of_false (fun h => ?_) fun h => (h hlength).2 ⟨hpairs, hplus⟩
          exact not_hexDigit_plus ((h.accepted.mp ⟨u, hparse⟩).2 '+' hplus)
        · obtain ⟨-, hdigits⟩ := (pairs_and_no_plus_iff _).mp ⟨hpairs, hplus⟩
          have hlen := byteLength_of_single fun c hc => (hdigits c hc).utf8Size
          refine iff_of_true ⟨⟨_, hparse⟩, iff_of_true ⟨u, hparse⟩ ⟨by omega, hdigits⟩, ?_⟩
            fun _ => ⟨hfree, fun h => hplus h.2⟩
          intro v hv
          rw [hparse] at hv
          cases hv
          exact hvalue hplus
  · have hparse : parseStr s = .ok (.error (.invalidUuid s)) := by
      unfold parseStr
      dsimp only
      rw [if_pos hlength]
    refine iff_of_true (parsesExactly_of_refused hparse ?_) fun h => absurd h hlength
    rintro ⟨hlen, hdigits⟩
    exact hlength ((byteLength_of_single fun c hc => (hdigits c hc).utf8Size).trans hlen)

/-- The digits of the text form are those of the bytes. -/
theorem filter_display (u : Uuid) : u.display.toList.filter (· ≠ '-') = hexText u.bytes := by
  have hfree (bytes : List UInt8) : (hexText bytes).filter (· ≠ '-') = hexText bytes := by
    refine List.filter_eq_self.mpr fun c hc => ?_
    have hne : c ≠ '-' := by
      rintro rfl
      exact absurd (isHexDigit_of_mem_hexText hc) (by decide)
    simpa using hne
  have happend (front back : List UInt8) :
      hexText front ++ hexText back = hexText (front ++ back) := List.flatMap_append.symm
  have hcut : u.bytes.take 4 ++ ((u.bytes.drop 4).take 2 ++ ((u.bytes.drop 6).take 2 ++
      ((u.bytes.drop 8).take 2 ++ u.bytes.drop 10))) = u.bytes := by
    have hstep (n : ℕ) : (u.bytes.drop n).take 2 ++ u.bytes.drop (n + 2) = u.bytes.drop n := by
      rw [← List.drop_drop, List.take_append_drop]
    rw [hstep 8, hstep 6, hstep 4, List.take_append_drop]
  rw [display, String.toList_ofList]
  simp only [List.filter_append, List.filter_cons, hfree, happend, hcut, ne_eq, not_true_eq_false,
    decide_false, Bool.false_eq_true, if_false]

/-- **The text form of a UUID is read back** as that UUID, without a panic or an error. -/
theorem parseStr_display (u : Uuid) : parseStr u.display = .ok (.ok u) := by
  have hhex := filter_display u
  have hlength : byteLength (u.display.toList.filter (· ≠ '-')) = 32 := by
    rw [hhex, byteLength_hexText, u.length_eq]
  have hrun := unhexPairs_hexText u.bytes
  rw [u.length_eq] at hrun
  rcases parseStr_of_length hlength with ⟨hpairs, -⟩ | ⟨hpairs, -⟩ | ⟨v, hpairs, hparse⟩
  · rw [hhex, hrun] at hpairs
    cases hpairs
  · rw [hhex, hrun] at hpairs
    cases hpairs
  · rw [hhex, hrun] at hpairs
    obtain ⟨bytes, hbytes⟩ := u
    obtain ⟨bytes', hbytes'⟩ := v
    cases hpairs
    exact hparse

/-- **UUIDs as text.** A text is read exactly unless it has 32 bytes besides hyphens and a
character straddles a pair, or all pairs are numbers and one has a plus sign; the text form of
every UUID is read back. -/
theorem parseStr_exact_iff (s : String) (u : Uuid) :
    (ParsesExactly s ↔ (byteLength (s.toList.filter (· ≠ '-')) = 32 →
      ¬ Straddled (s.toList.filter (· ≠ '-')) ∧
        ¬ (Pairs (s.toList.filter (· ≠ '-')) ∧ '+' ∈ s.toList.filter (· ≠ '-')))) ∧
      parseStr u.display = .ok (.ok u) :=
  ⟨parsesExactly_iff s, parseStr_display u⟩

/-- A wide character behind one digit stops the program, and sixteen pairs of a plus sign and a
digit are read. -/
theorem parseStr_panics_and_reads_signs :
    parseStr "aéaaaaaaaaaaaaaaaaaaaaaaaaaaaaa" = .error .sliceBoundary ∧
      parseStr "+f+f+f+f+f+f+f+f+f+f+f+f+f+f+f+f" = .ok (.ok ⟨List.replicate 16 15, rfl⟩) := by
  decide

end Uuid

end Skaidb

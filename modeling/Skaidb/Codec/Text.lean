import Mathlib.Data.List.Basic
import Mathlib.Tactic.Common

/-!
# Numbers, bytes and fields as text

Numbers in decimal digits without leading zeros, bytes as two hexadecimal digits, and the
reader of unsigned numbers in a base, which allows a plus sign and refuses what does not fit.
Fields joined by a separator determine the fields when none of them contains it and their
number is known.
-/

namespace Codec

/-- The value of a digit in a base. -/
def toDigit (base : ℕ) (c : Char) : Option ℕ :=
  let value :=
    if 48 ≤ c.toNat ∧ c.toNat ≤ 57 then some (c.toNat - 48)
    else if 97 ≤ c.toNat ∧ c.toNat ≤ 122 then some (c.toNat - 87)
    else if 65 ≤ c.toNat ∧ c.toNat ≤ 90 then some (c.toNat - 55)
    else none
  value.filter (· < base)

/-- The hexadecimal text of bytes, two lower-case digits for each. -/
def hexText (bytes : List UInt8) : List Char :=
  bytes.flatMap fun b => [Nat.digitChar (b.toNat / 16), Nat.digitChar (b.toNat % 16)]

/-- One more digit of a number below a limit. -/
def readDigit (base limit n : ℕ) (c : Char) : Option ℕ :=
  match toDigit base c with
  | some d => if n * base + d < limit then some (n * base + d) else none
  | none => none

/-- Read an unsigned number below a limit; it may have a plus sign. -/
def fromStrRadix (base limit : ℕ) (text : List Char) : Option ℕ :=
  match text with
  | [] => none
  | ['+'] => none
  | '+' :: digits => digits.foldlM (readDigit base limit) 0
  | digits => digits.foldlM (readDigit base limit) 0

/-! ## Digits -/

/-- The character is a decimal digit or a hexadecimal one in lower case. -/
def IsHexDigit (c : Char) : Prop :=
  48 ≤ c.toNat ∧ c.toNat ≤ 57 ∨ 97 ≤ c.toNat ∧ c.toNat ≤ 102

instance decidableIsHexDigit (c : Char) : Decidable (IsHexDigit c) :=
  inferInstanceAs (Decidable (_ ∨ _))

/-- What a hexadecimal digit is and what it is read as. -/
theorem toDigit_digitChar {n : ℕ} (hn : n < 16) :
    IsHexDigit n.digitChar ∧ toDigit 16 n.digitChar = some n := by
  have h : ∀ k < 16, IsHexDigit (Nat.digitChar k) ∧ toDigit 16 (Nat.digitChar k) = some k := by
    decide
  exact h n hn

/-- A decimal digit is read as the number that it is printed for. -/
theorem toDigit_ten_digitChar {n : ℕ} (hn : n < 10) : toDigit 10 n.digitChar = some n := by
  have h : ∀ k < 10, toDigit 10 (Nat.digitChar k) = some k := by decide
  exact h n hn

/-- The first 128 characters are written in one byte, so bytes and characters of such a text are
counted alike. -/
theorem utf8Size_of_toNat_le {c : Char} (h : c.toNat ≤ 127) : c.utf8Size = 1 :=
  Char.utf8Size_eq_one_iff.mpr (UInt32.le_iff_toNat_le.mpr h)

/-- A hexadecimal digit is written in one byte, so that positions count digits. -/
theorem IsHexDigit.utf8Size {c : Char} (h : IsHexDigit c) : c.utf8Size = 1 := by
  apply utf8Size_of_toNat_le
  unfold IsHexDigit at h
  omega

/-- What is read as a digit is written in one byte, and its value is below the base. -/
theorem utf8Size_of_toDigit {base n : ℕ} {c : Char} (h : toDigit base c = some n) :
    c.utf8Size = 1 ∧ n < base := by
  unfold toDigit at h
  dsimp only at h
  rw [Option.filter_eq_some_iff] at h
  obtain ⟨hvalue, hbase⟩ := h
  refine ⟨utf8Size_of_toNat_le ?_, by simpa using hbase⟩
  split at hvalue
  · omega
  · split at hvalue
    · omega
    · split at hvalue
      · omega
      · cases hvalue

/-- The text of bytes in hexadecimal consists of digits, so that it holds no separator of a text
form. -/
theorem isHexDigit_of_mem_hexText {bytes : List UInt8} {c : Char} (h : c ∈ hexText bytes) :
    IsHexDigit c := by
  obtain ⟨b, -, hc⟩ := List.mem_flatMap.mp h
  have hb : b.toNat < 256 := b.toNat_lt
  rcases List.mem_cons.mp hc with rfl | hc
  · exact (toDigit_digitChar (by omega)).1
  · rw [List.mem_singleton.mp hc]
    exact (toDigit_digitChar (by omega)).1

/-- The text of a number in decimal consists of digits, so that it holds no separator of a text
form. -/
theorem isHexDigit_of_mem_toDigits {n : ℕ} {c : Char} (h : c ∈ Nat.toDigits 10 n) :
    IsHexDigit c := by
  have hdigit : c.isDigit = true := Nat.isDigit_of_mem_toDigits (by decide) (by decide) h
  simp only [Char.isDigit, Bool.and_eq_true, decide_eq_true_eq] at hdigit
  exact .inl ⟨UInt32.le_iff_toNat_le.mp hdigit.1, UInt32.le_iff_toNat_le.mp hdigit.2⟩

/-! ## Reading them back -/

/-- A number below the limit is read back from its digits. -/
theorem foldlM_readDigit_toDigits {n limit : ℕ} (h : n < limit) :
    (Nat.toDigits 10 n).foldlM (readDigit 10 limit) 0 = some n := by
  induction n using Nat.strongRecOn with
  | _ n ih =>
    by_cases hsmall : n < 10
    · rw [Nat.toDigits_of_lt_base hsmall]
      simp [readDigit, toDigit_ten_digitChar hsmall, h]
    · have hstep : n / 10 * 10 + n % 10 = n := by omega
      rw [Nat.toDigits_of_base_le (by decide) (Nat.not_lt.mp hsmall), List.foldlM_append,
        ih (n / 10) (by omega) (by omega)]
      simp [readDigit, toDigit_ten_digitChar (Nat.mod_lt n (by decide)), hstep, h]

/-- A text that does not start with a plus sign is its digits. -/
theorem fromStrRadix_of_digits {base limit : ℕ} {c : Char} {text : List Char} (hc : IsHexDigit c) :
    fromStrRadix base limit (c :: text) = (c :: text).foldlM (readDigit base limit) 0 := by
  have hplus : c ≠ '+' := by
    rintro rfl
    exact absurd hc (by decide)
  unfold fromStrRadix
  split <;> simp_all

/-- **Decimal.** A number below the limit is read back. -/
theorem fromStrRadix_toDigits {n limit : ℕ} (h : n < limit) :
    fromStrRadix 10 limit (Nat.toDigits 10 n) = some n := by
  cases htext : Nat.toDigits 10 n with
  | nil => exact absurd htext Nat.toDigits_ne_nil
  | cons c text =>
    have hc : IsHexDigit c := isHexDigit_of_mem_toDigits (htext ▸ List.mem_cons_self)
    rw [fromStrRadix_of_digits hc, ← htext, foldlM_readDigit_toDigits h]

/-- A number is told by its decimal digits, so names made from different counters are different. -/
theorem toDigits_injective {m n : ℕ} (h : Nat.toDigits 10 m = Nat.toDigits 10 n) : m = n := by
  have hvalue := congrArg (fun digits => Nat.ofDigitChars 10 digits 0) h
  simpa using hvalue

/-- Two characters are read as two digits, or as one behind a plus sign. -/
theorem fromStrRadix_pair (c d : Char) :
    fromStrRadix 16 256 [c, d] =
      if c = '+' then toDigit 16 d
      else (toDigit 16 c).bind fun high => (toDigit 16 d).map fun low => high * 16 + low := by
  have hlow : [d].foldlM (readDigit 16 256) 0 = toDigit 16 d := by
    cases hd : toDigit 16 d with
    | none => simp [readDigit, hd]
    | some low =>
      have hlt := (utf8Size_of_toDigit hd).2
      have hfits : low < 256 := by omega
      simp [readDigit, hd, hfits]
  by_cases hplus : c = '+'
  · rw [if_pos hplus, hplus, ← hlow]
    rfl
  · have hdigits : fromStrRadix 16 256 [c, d] = [c, d].foldlM (readDigit 16 256) 0 := by
      unfold fromStrRadix
      split <;> simp_all
    rw [if_neg hplus, hdigits]
    cases hc : toDigit 16 c with
    | none => simp [readDigit, hc]
    | some high =>
      have hhigh := (utf8Size_of_toDigit hc).2
      have hfits : high < 256 := by omega
      cases hd : toDigit 16 d with
      | none => simp [readDigit, hc, hd, hfits]
      | some low =>
        have hlt := (utf8Size_of_toDigit hd).2
        have hboth : high * 16 + low < 256 := by omega
        simp [readDigit, hc, hd, hfits, hboth]

/-- **Hexadecimal.** A byte is read back from its two digits. -/
theorem fromStrRadix_hexText (b : UInt8) :
    fromStrRadix 16 256 [Nat.digitChar (b.toNat / 16), Nat.digitChar (b.toNat % 16)] =
      some b.toNat := by
  have hb : b.toNat < 256 := b.toNat_lt
  obtain ⟨hdigit, hhigh⟩ := toDigit_digitChar (by omega : b.toNat / 16 < 16)
  obtain ⟨-, hlow⟩ := toDigit_digitChar (by omega : b.toNat % 16 < 16)
  have hstep : b.toNat / 16 * 16 + b.toNat % 16 = b.toNat := by omega
  have hplus : Nat.digitChar (b.toNat / 16) ≠ '+' := by
    intro heq
    rw [heq] at hdigit
    exact absurd hdigit (by decide)
  rw [fromStrRadix_pair, if_neg hplus, hhigh, hlow, Option.bind_some, Option.map_some, hstep]

/-- Bytes are told apart by their hexadecimal text, which writes two digits for each of them. -/
theorem hexText_injective {bytes bytes' : List UInt8} (h : hexText bytes = hexText bytes') :
    bytes = bytes' := by
  induction bytes generalizing bytes' with
  | nil =>
    cases bytes' with
    | nil => rfl
    | cons b' rest' => simp [hexText] at h
  | cons b rest ih =>
    cases bytes' with
    | nil => simp [hexText] at h
    | cons b' rest' =>
      simp only [hexText, List.flatMap_cons, List.cons_append, List.nil_append,
        List.cons.injEq] at h
      obtain ⟨hhigh, hlow, hrest⟩ := h
      have hread := fromStrRadix_hexText b
      rw [hhigh, hlow, fromStrRadix_hexText b'] at hread
      rw [UInt8.toNat_inj.mp (Option.some.inj hread).symm, ih hrest]

/-! ## Fields behind a separator -/

/-- The separators of joined fields are those between them and those inside them. -/
theorem count_intercalate {α : Type} [DecidableEq α] (x : α) {fields : List (List α)}
    (hne : fields ≠ []) :
    ([x].intercalate fields).count x + 1 = fields.length + fields.flatten.count x := by
  induction fields with
  | nil => exact absurd rfl hne
  | cons f fields ih =>
    cases fields with
    | nil =>
      simp only [List.intercalate_singleton, List.length_cons, List.length_nil,
        List.flatten_singleton]
      omega
    | cons g fields =>
      have hrest := ih (List.cons_ne_nil g fields)
      simp only [List.intercalate_cons_cons, List.count_append, List.count_singleton_self,
        List.length_cons, List.flatten_cons] at hrest ⊢
      omega

/-- Fields without the separator have the same join as no other list of that length. -/
theorem intercalate_injective {α : Type} [DecidableEq α] {x : α} {fields fields' : List (List α)}
    (hne : fields ≠ []) (hfree : ∀ f ∈ fields, x ∉ f) (hlength : fields'.length = fields.length)
    (h : [x].intercalate fields' = [x].intercalate fields) : fields' = fields := by
  have hne' : fields' ≠ [] := by
    rintro rfl
    exact hne (List.length_eq_zero_iff.mp hlength.symm)
  have hcount := count_intercalate x hne
  have hcount' := count_intercalate x hne'
  have hzero : fields.flatten.count x = 0 := by
    refine List.count_eq_zero.mpr fun hx => ?_
    obtain ⟨f, hf, hx⟩ := List.mem_flatten.mp hx
    exact hfree f hf hx
  have hzero' : fields'.flatten.count x = 0 := by
    rw [h] at hcount'
    omega
  have hfree' : ∀ f ∈ fields', x ∉ f := fun f hf hx =>
    List.count_eq_zero.mp hzero' (List.mem_flatten.mpr ⟨f, hf, hx⟩)
  rw [← List.splitOn_intercalate x hfree' hne', h, List.splitOn_intercalate x hfree hne]

/-- A separator that is met at two places of one text stands inside one of the parts. -/
theorem append_separator_inj {α : Type} {t c t' c' : List α} {mark : α}
    (h : t ++ mark :: c = t' ++ mark :: c') :
    (t = t' ∧ c = c') ∨ (∃ m, t' = t ++ mark :: m ∧ c = m ++ mark :: c') ∨
      ∃ m, t = t' ++ mark :: m ∧ c' = m ++ mark :: c := by
  rcases List.append_eq_append_iff.mp h with ⟨m, ht, hc⟩ | ⟨m, ht, hc⟩
  · cases m with
    | nil => exact Or.inl ⟨by simpa using ht.symm, by simpa using hc⟩
    | cons x m =>
      obtain ⟨rfl, hrest⟩ := List.cons.inj hc
      exact Or.inr (Or.inl ⟨m, ht, hrest⟩)
  · cases m with
    | nil => exact Or.inl ⟨by simpa using ht, by simpa using hc.symm⟩
    | cons x m =>
      obtain ⟨rfl, hrest⟩ := List.cons.inj hc
      exact Or.inr (Or.inr ⟨m, ht, hrest⟩)

/-! ## Quoted text -/

/-- A text with each occurrence of a character doubled, as quotes are escaped. -/
def doubled (q : Char) (text : List Char) : List Char :=
  text.flatMap fun c => if c = q then [q, q] else [c]

/-- Read a text up to its closing quote; a quote that stands twice belongs to the text. -/
def readQuoted (q : Char) : List Char → Option (List Char × List Char)
  | [] => none
  | [c] => if c = q then some ([], []) else none
  | c :: d :: text =>
    if c ≠ q then (readQuoted q (d :: text)).map fun parts => (c :: parts.1, parts.2)
    else if d = q then (readQuoted q text).map fun parts => (q :: parts.1, parts.2)
    else some ([], d :: text)

/-- Read a quoted token from its opening quote on. -/
def readToken (q : Char) : List Char → Option (List Char × List Char)
  | [] => none
  | c :: text => if c = q then readQuoted q text else none

/-- A text with its quotes doubled is read back, unless another quote follows. -/
theorem readQuoted_doubled {q : Char} {rest : List Char} (h : rest.head? ≠ some q)
    (text : List Char) : readQuoted q (doubled q text ++ q :: rest) = some (text, rest) := by
  induction text with
  | nil =>
    cases rest with
    | nil => simp [doubled, readQuoted]
    | cons d rest =>
      have hd : d ≠ q := fun heq => h (congrArg some heq)
      simp [doubled, readQuoted, hd]
  | cons c text ih =>
    by_cases hc : c = q
    · subst hc
      have hsplit : doubled c (c :: text) = c :: c :: doubled c text := by simp [doubled]
      rw [hsplit, List.cons_append, List.cons_append, readQuoted, ih]
      simp
    · have hsplit : doubled q (c :: text) = c :: doubled q text := by simp [doubled, hc]
      obtain ⟨first, others, hothers⟩ : ∃ first others,
          doubled q text ++ q :: rest = first :: others := by
        cases doubled q text with
        | nil => exact ⟨q, rest, rfl⟩
        | cons first others => exact ⟨first, others ++ q :: rest, rfl⟩
      rw [hsplit, List.cons_append, hothers, readQuoted, ← hothers, ih]
      simp [hc]

/-- A token is read back between its quotes, and the reader stops behind it. -/
theorem readToken_doubled {q : Char} {rest : List Char} (h : rest.head? ≠ some q)
    (text : List Char) :
    readToken q ([q] ++ doubled q text ++ [q] ++ rest) = some (text, rest) := by
  rw [List.append_assoc, List.append_assoc, List.singleton_append, readToken, if_pos rfl]
  exact readQuoted_doubled h text

end Codec

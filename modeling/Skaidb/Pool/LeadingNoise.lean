import Mathlib.Data.List.TakeWhile
import Skaidb.Pool.WriteScan

/-!
# What stands before a statement

Whitespace, opening parentheses and comments before a statement do not matter to whether it
counts as a write. A comment is closed by its first closing delimiter, whatever else is in
it; one that is not closed hides the rest of the text. The first word decides.
-/

namespace Skaidb

open Codec

/-! ## Noise -/

/-- The characters of whitespace that are skipped in front of a statement. -/
def isSpaceChar (c : Char) : Bool := [' ', '\t', '\n', '\x0c', '\r'].contains c

/-- Inside a block comment, the text does not close it. -/
def Unclosed (text : List Char) : Prop := ¬ ['*', '/'] <:+: text

/-- One piece of what may stand in front of a statement: whitespace, a parenthesis, or a comment. -/
inductive NoisePiece : List Char → Prop
  /-- A character of ASCII white space. -/
  | space {c : Char} (h : isSpaceChar c = true) : NoisePiece [c]
  /-- An opening parenthesis, as around a query. -/
  | paren : NoisePiece ['(']
  /-- A line comment with its newline. -/
  | line {text : List Char} (h : '\n' ∉ text) : NoisePiece ('-' :: '-' :: text ++ ['\n'])
  /-- A block comment up to the first end of one. -/
  | block {text : List Char} (h : Unclosed text) :
    NoisePiece ('/' :: '*' :: text ++ ['*', '/'])

/-- White space and comments one after another, as they may stand in front of a statement. -/
inductive Noise : List Char → Prop
  /-- No piece of noise at all. -/
  | nil : Noise []
  /-- One piece of noise in front of others. -/
  | cons {piece rest : List Char} (h : NoisePiece piece) (hrest : Noise rest) :
    Noise (piece ++ rest)

section Bytes

variable {text : List Char} {bytes rest : List UInt8}

/-- The characters of a text whose bytes have one below 128. -/
theorem mem_of_mem_utf8Bytes {x : UInt8} (h : x ∈ utf8Bytes text) (hlt : x.toNat < 128) :
    Char.ofNat x.toNat ∈ text := by
  obtain ⟨front, rest, hbytes⟩ := List.append_of_mem h
  obtain ⟨text₁, c, text₂, rfl, -, hc, -⟩ := exists_split_of_lt hbytes hlt
  rw [← hc, Char.ofNat_toNat]
  simp

/-- A text without a newline has none among its bytes. -/
theorem newline_not_mem (h : '\n' ∉ text) : (0x0A : UInt8) ∉ utf8Bytes text :=
  fun hmem => h (mem_of_mem_utf8Bytes hmem (by decide))

/-- A text that does not close a comment has no closing among its bytes. -/
theorem Unclosed.not_infix (h : Unclosed text) : ¬ [0x2A, 0x2F] <:+: utf8Bytes text := by
  rintro ⟨front, rest, hbytes⟩
  rw [List.append_assoc] at hbytes
  obtain ⟨text₁, c, text₂, rfl, -, hc, hrest⟩ := exists_split_of_lt hbytes.symm (by decide)
  obtain ⟨text₃, d, text₄, rfl, hnil, hd, -⟩ :=
    exists_split_of_lt (show utf8Bytes text₂ = [] ++ 0x2F :: rest from hrest) (by decide)
  have hempty : text₃ = [] := by
    have hlength := congrArg List.length hnil
    cases text₃ with
    | nil => rfl
    | cons c text =>
      have hpos := c.utf8Size_pos
      rw [length_utf8Bytes, byteLength_cons, List.length_nil] at hlength
      omega
  subst hempty
  have hstar : c = '*' := by
    rw [← Char.ofNat_toNat c, hc]
    rfl
  have hslash : d = '/' := by
    rw [← Char.ofNat_toNat d, hd]
    rfl
  subst hstar hslash
  exact h ⟨text₁, text₄, by simp⟩

/-- The end of a line comment is its first newline. -/
theorem afterLine_append (h : (0x0A : UInt8) ∉ bytes) (rest : List UInt8) :
    afterLine (bytes ++ 0x0A :: rest) = rest := by
  unfold afterLine
  rw [List.dropWhile_append_of_pos]
  · rfl
  · intro x hx
    rw [bne_iff_ne]
    rintro rfl
    exact h hx

/-- A line comment without a newline goes on to the end. -/
theorem afterLine_of_not_mem (h : (0x0A : UInt8) ∉ bytes) : afterLine bytes = [] := by
  unfold afterLine
  rw [List.dropWhile_eq_nil_iff.mpr]
  · rfl
  · intro x hx
    rw [bne_iff_ne]
    rintro rfl
    exact h hx

/-- The end of a block comment is its first closing. -/
theorem afterBlock_append (h : ¬ [0x2A, 0x2F] <:+: bytes) (rest : List UInt8) :
    afterBlock (bytes ++ 0x2A :: 0x2F :: rest) = rest := by
  induction bytes with
  | nil => rfl
  | cons x bytes ih =>
    have hrest : ¬ [0x2A, 0x2F] <:+: bytes := fun hinfix => h (List.infix_cons hinfix)
    have hfirst : [0x2A, 0x2F].isPrefixOf (x :: (bytes ++ 0x2A :: 0x2F :: rest)) = false := by
      rw [Bool.eq_false_iff]
      intro hclosing
      rw [List.isPrefixOf_iff_prefix] at hclosing
      -- A closing that begins here is in the comment, or its slash is the star of the next one.
      cases bytes with
      | nil => simp at hclosing
      | cons y bytes =>
        obtain ⟨rfl, hy⟩ := List.cons_prefix_cons.mp hclosing
        obtain ⟨rfl, -⟩ := List.cons_prefix_cons.mp hy
        exact h ⟨[], bytes, rfl⟩
    rw [List.cons_append, afterBlock, hfirst]
    exact ih hrest

/-- A block comment without a closing goes on to the end. -/
theorem afterBlock_of_not_infix (h : ¬ [0x2A, 0x2F] <:+: bytes) : afterBlock bytes = [] := by
  induction bytes with
  | nil => rfl
  | cons x bytes ih =>
    have hfirst : [0x2A, 0x2F].isPrefixOf (x :: bytes) = false := by
      rw [Bool.eq_false_iff]
      intro hclosing
      exact h (List.isPrefixOf_iff_prefix.mp hclosing).isInfix
    rw [afterBlock, hfirst]
    exact ih fun hinfix => h (List.infix_cons hinfix)

/-- `stripNoise` skips a byte of whitespace and an opening parenthesis. -/
theorem stripNoise_space {x : UInt8} (h : (isAsciiWhitespace x || x == 0x28) = true)
    (rest : List UInt8) : stripNoise (x :: rest) = stripNoise rest := by
  unfold stripNoise
  rw [List.length_cons, skipNoise, if_pos h]

/-- A line comment at the beginning is skipped to its end, and what follows it is stripped in
turn. -/
theorem stripNoise_line (rest : List UInt8) :
    stripNoise (0x2D :: 0x2D :: rest) = stripNoise (afterLine rest) := by
  have hafter : afterLine (0x2D :: 0x2D :: rest) = afterLine rest := rfl
  have hlength : (afterLine rest).length ≤ (0x2D :: rest).length := by
    unfold afterLine
    have hle := (List.dropWhile_sublist (· != 0x0A) : List.Sublist _ rest).length_le
    rw [List.length_drop, List.length_cons]
    omega
  rw [stripNoise, List.length_cons, skipNoise, if_neg (by decide),
    if_pos (by simp [List.isPrefixOf]), hafter, skipNoise_of_le hlength]

/-- What stands behind a block comment is no longer than what the comment began in. -/
theorem length_afterBlock_le (bytes : List UInt8) : (afterBlock bytes).length ≤ bytes.length := by
  induction bytes with
  | nil => exact le_rfl
  | cons x bytes ih =>
    rw [afterBlock]
    split
    · rw [List.length_drop, List.length_cons]
      omega
    · exact ih.trans (Nat.le_succ _)

/-- A block comment at the beginning is skipped to its end, and what follows it is stripped in
turn. -/
theorem stripNoise_block (rest : List UInt8) :
    stripNoise (0x2F :: 0x2A :: rest) = stripNoise (afterBlock rest) := by
  have hlength : (afterBlock rest).length ≤ (0x2A :: rest).length :=
    (length_afterBlock_le rest).trans (Nat.le_succ _)
  rw [stripNoise, List.length_cons, skipNoise, if_neg (by decide), if_neg (by simp),
    if_pos (by simp [List.isPrefixOf])]
  exact skipNoise_of_le hlength

/-- A character of whitespace takes one byte, which `stripNoise` skips. -/
theorem space_bytes {c : Char} (h : isSpaceChar c = true) :
    ∃ x, String.utf8EncodeChar c = [x] ∧ (isAsciiWhitespace x || x == 0x28) = true := by
  simp only [isSpaceChar, List.contains_cons, List.contains_nil, Bool.or_false, Bool.or_eq_true,
    beq_iff_eq] at h
  rcases h with rfl | rfl | rfl | rfl | rfl <;> exact ⟨_, rfl, by decide⟩

/-- **A piece of noise is skipped** whole, and what follows it is skipped as it would be alone. -/
theorem NoisePiece.strip {piece : List Char} (h : NoisePiece piece) (rest : List UInt8) :
    stripNoise (utf8Bytes piece ++ rest) = stripNoise rest := by
  cases h with
  | @space c h =>
    obtain ⟨x, hx, hspace⟩ := space_bytes h
    rw [utf8Bytes_cons, hx]
    exact stripNoise_space hspace rest
  | paren => exact stripNoise_space (by decide) rest
  | @line text h =>
    have hbytes : utf8Bytes ('-' :: '-' :: text ++ ['\n']) ++ rest =
        0x2D :: 0x2D :: (utf8Bytes text ++ 0x0A :: rest) := by
      rw [utf8Bytes_append, List.append_assoc]
      rfl
    rw [hbytes, stripNoise_line, afterLine_append (newline_not_mem h)]
  | @block text h =>
    have hbytes : utf8Bytes ('/' :: '*' :: text ++ ['*', '/']) ++ rest =
        0x2F :: 0x2A :: (utf8Bytes text ++ 0x2A :: 0x2F :: rest) := by
      rw [utf8Bytes_append, List.append_assoc]
      rfl
    rw [hbytes, stripNoise_block, afterBlock_append h.not_infix]

/-- **Noise is skipped.** In front of anything, `stripNoise` skips the bytes of any noise that is
complete. -/
theorem Noise.strip {p : List Char} (h : Noise p) (rest : List UInt8) :
    stripNoise (utf8Bytes p ++ rest) = stripNoise rest := by
  induction h with
  | nil => rfl
  | cons hpiece _ ih => rw [utf8Bytes_append, List.append_assoc, hpiece.strip, ih]

end Bytes

/-! ## The first word -/

/-- The word that the bytes begin with, behind the noise, is no read keyword. -/
def writesBy (bytes : List UInt8) : Bool :=
  !readKeywords.any fun k =>
    (bytes.takeWhile isWordByte).map toAsciiLower == (utf8 k).map toAsciiLower

/-- Whether a statement writes is decided by what follows the noise in front of it. -/
theorem isWrite_eq (sql : String) : isWrite sql = writesBy (stripNoise (utf8 sql)) := rfl

/-- The characters that a keyword is made of. -/
def isWordChar (c : Char) : Bool := c.isAlpha || c == '_'

section Words

/-- For characters below 128, the byte tests of the source are the tests of the characters. -/
theorem ascii_word (n : ℕ) (h : n < 128) :
    isWordByte (UInt8.ofNat n) = isWordChar (Char.ofNat n) ∧
      (String.utf8EncodeChar (Char.ofNat n)).map toAsciiLower =
        String.utf8EncodeChar (Char.ofNat n).toLower := by
  revert n
  decide

/-- A character of a word is below 128, so it is one byte of the text and bytes and characters agree
there. -/
theorem lt_of_isWordChar {c : Char} (h : isWordChar c = true) : c.toNat < 128 := by
  rcases (Bool.or_eq_true _ _).mp h with halpha | hunder
  · rcases (Bool.or_eq_true _ _).mp halpha with hupper | hlower
    · have hle : c.val ≤ 'Z'.val := (of_decide_eq_true hupper).2
      exact lt_of_le_of_lt (UInt32.le_iff_toNat_le.mp hle) (by decide)
    · have hle : c.val ≤ 'z'.val := of_decide_eq_true ((Bool.and_eq_true _ _).mp hlower).2
      exact lt_of_le_of_lt (UInt32.le_iff_toNat_le.mp hle) (by decide)
  · rw [eq_of_beq hunder]
    decide

/-- A character of a word is one byte of a word, and its lower case too. -/
theorem word_bytes {c : Char} (h : isWordChar c = true) :
    ∃ x, String.utf8EncodeChar c = [x] ∧ isWordByte x = true ∧
      String.utf8EncodeChar c.toLower = [toAsciiLower x] := by
  have hlt := lt_of_isWordChar h
  obtain ⟨hword, hlower⟩ := ascii_word c.toNat hlt
  rw [Char.ofNat_toNat] at hword hlower
  refine ⟨_, utf8EncodeChar_of_lt hlt, hword.trans h, ?_⟩
  rw [← hlower, utf8EncodeChar_of_lt hlt]
  rfl

/-- Another character does not begin with a byte of a word. -/
theorem not_word_bytes {c : Char} (h : isWordChar c = false) :
    ∃ x bytes, String.utf8EncodeChar c = x :: bytes ∧ isWordByte x = false := by
  by_cases hlt : c.toNat < 128
  · obtain ⟨hword, -⟩ := ascii_word c.toNat hlt
    rw [Char.ofNat_toNat, h] at hword
    exact ⟨_, [], utf8EncodeChar_of_lt hlt, hword⟩
  · cases hbytes : String.utf8EncodeChar c with
    | nil =>
      have hlength := String.length_utf8EncodeChar c
      have hpos := c.utf8Size_pos
      rw [hbytes, List.length_nil] at hlength
      omega
    | cons x bytes =>
      refine ⟨x, bytes, rfl, ?_⟩
      rw [Bool.eq_false_iff]
      intro hword
      have hle := le_of_mem_utf8EncodeChar (by omega)
        (show x ∈ String.utf8EncodeChar c by rw [hbytes]; exact List.mem_cons_self)
      have hsmall := lt_of_isWordByte hword
      omega

/-- The bytes of the first word are those of its characters. -/
theorem takeWhile_utf8Bytes (text : List Char) :
    (utf8Bytes text).takeWhile isWordByte = utf8Bytes (text.takeWhile isWordChar) := by
  induction text with
  | nil => rfl
  | cons c text ih =>
    cases hc : isWordChar c with
    | true =>
      obtain ⟨x, hx, hword, -⟩ := word_bytes hc
      rw [List.takeWhile_cons_of_pos hc, utf8Bytes_cons, utf8Bytes_cons, hx, List.singleton_append,
        List.takeWhile_cons_of_pos hword, ih]
      rfl
    | false =>
      obtain ⟨x, bytes, hx, hword⟩ := not_word_bytes hc
      rw [List.takeWhile_cons_of_neg (by simp [hc]), utf8Bytes_cons, hx, List.cons_append,
        List.takeWhile_cons_of_neg (by simp [hword])]
      rfl

/-- Lowering the bytes of a word is lowering its characters. -/
theorem map_toAsciiLower_utf8Bytes {word : List Char} (h : ∀ c ∈ word, isWordChar c = true) :
    (utf8Bytes word).map toAsciiLower = utf8Bytes (word.map Char.toLower) := by
  induction word with
  | nil => rfl
  | cons c word ih =>
    obtain ⟨x, hx, -, hlower⟩ := word_bytes (h c List.mem_cons_self)
    rw [List.map_cons, utf8Bytes_cons, utf8Bytes_cons, hx, hlower, List.map_append,
      ih fun d hd => h d (List.mem_cons_of_mem c hd)]
    rfl

/-- Bytes do not begin with a write exactly when their first word, in lower case, is a reading
keyword. -/
theorem writesBy_eq_false_iff (text : List Char) : writesBy (utf8Bytes text) = false ↔
    ∃ k ∈ readKeywords, (text.takeWhile isWordChar).map Char.toLower = k.toList := by
  have hlower : ∀ k ∈ readKeywords, (utf8 k).map toAsciiLower = utf8 k := by decide
  have hword : ∀ c ∈ text.takeWhile isWordChar, isWordChar c = true :=
    fun c hc => List.mem_takeWhile_imp hc
  unfold writesBy
  rw [takeWhile_utf8Bytes, map_toAsciiLower_utf8Bytes hword, Bool.not_eq_false', List.any_eq_true]
  refine exists_congr fun k => and_congr_right fun hk => ?_
  rw [hlower k hk, beq_iff_eq, utf8_eq_utf8Bytes]
  constructor
  · intro hbytes
    have hstring : String.ofList ((text.takeWhile isWordChar).map Char.toLower) = k := by
      apply utf8_injective
      rw [utf8_eq_utf8Bytes, utf8_eq_utf8Bytes, String.toList_ofList, hbytes]
    rw [← hstring, String.toList_ofList]
  · exact congrArg utf8Bytes

/-- `stripNoise` stops in front of a letter of a keyword. -/
theorem stripNoise_of_word {x : UInt8} (h : isWordByte x = true) (rest : List UInt8) :
    stripNoise (x :: rest) = x :: rest := by
  have hspace : ¬ (isAsciiWhitespace x || x == 0x28) = true := by
    intro hspace
    rcases eq_of_space hspace with rfl | rfl | rfl | rfl | rfl | rfl <;> exact absurd h (by decide)
  have hfirst {y z : UInt8} (hy : isWordByte y = false) :
      ¬ [y, z].isPrefixOf (x :: rest) = true := by
    intro hbegins
    obtain ⟨rfl, -⟩ := List.cons_prefix_cons.mp (List.isPrefixOf_iff_prefix.mp hbegins)
    rw [h] at hy
    cases hy
  rw [stripNoise, List.length_cons, skipNoise, if_neg hspace, if_neg (hfirst (by decide)),
    if_neg (hfirst (by decide))]

end Words

/-! ## Classification -/

/-- White space and comments before a statement do not change whether it counts as a write. -/
theorem isWrite_append {p : String} (h : Noise p.toList) (sql : String) :
    isWrite (p ++ sql) = isWrite sql := by
  rw [isWrite_eq, isWrite_eq, utf8_append, utf8_eq_utf8Bytes p, h.strip]

/-- A text that the scanner skips altogether counts as a write. -/
theorem isWrite_of_strip {sql : String} (h : stripNoise (utf8 sql) = []) : isWrite sql = true := by
  rw [isWrite_eq, h]
  decide

/-- A statement that begins with a word is told by it. -/
theorem isWrite_of_word {sql : String} {c : Char} {text : List Char} (h : sql.toList = c :: text)
    (hc : isWordChar c = true) : isWrite sql = false ↔
      ∃ k ∈ readKeywords, (sql.toList.takeWhile isWordChar).map Char.toLower = k.toList := by
  obtain ⟨x, hx, hword, -⟩ := word_bytes hc
  have hstrip : stripNoise (utf8 sql) = utf8Bytes sql.toList := by
    rw [utf8_eq_utf8Bytes, h, utf8Bytes_cons, hx]
    exact stripNoise_of_word hword _
  rw [isWrite_eq, hstrip, writesBy_eq_false_iff]

/-- **Leading noise.** For every statement, the scanner returns without slicing inside a
character. Whitespace, opening parentheses and comments before the statement do not change its
class; a statement that begins with a letter or an underscore is no write exactly when its
first word is a read keyword in some case; and a text of noise only, or one that ends inside
a comment, counts as a write. -/
theorem isWrite_spec (sql : String) :
    isWrite? sql = .ok (isWrite sql) ∧
    (∀ p : String, Noise p.toList → isWrite (p ++ sql) = isWrite sql) ∧
    (∀ c text, sql.toList = c :: text → isWordChar c = true →
      (isWrite sql = false ↔
        ∃ k ∈ readKeywords, (sql.toList.takeWhile isWordChar).map Char.toLower = k.toList)) ∧
    (Noise sql.toList → isWrite sql = true) ∧
    (∀ p : String, Noise p.toList → '\n' ∉ sql.toList → isWrite (p ++ "--" ++ sql) = true) ∧
    (∀ p : String, Noise p.toList → Unclosed sql.toList → isWrite (p ++ "/*" ++ sql) = true) := by
  refine ⟨isWrite?_eq sql, fun p hp => isWrite_append hp sql,
    fun c text h hc => isWrite_of_word h hc, fun h => ?_, fun p hp h => ?_, fun p hp h => ?_⟩
  · apply isWrite_of_strip
    have hstrip := h.strip []
    rw [List.append_nil, ← utf8_eq_utf8Bytes] at hstrip
    rw [hstrip]
    rfl
  · rw [String.append_assoc, isWrite_append hp]
    apply isWrite_of_strip
    have hbytes : utf8 ("--" ++ sql) = 0x2D :: 0x2D :: utf8Bytes sql.toList := by
      rw [utf8_append, utf8_eq_utf8Bytes sql]
      rfl
    rw [hbytes, stripNoise_line, afterLine_of_not_mem (newline_not_mem h)]
    rfl
  · rw [String.append_assoc, isWrite_append hp]
    apply isWrite_of_strip
    have hbytes : utf8 ("/*" ++ sql) = 0x2F :: 0x2A :: utf8Bytes sql.toList := by
      rw [utf8_append, utf8_eq_utf8Bytes sql]
      rfl
    rw [hbytes, stripNoise_block, afterBlock_of_not_infix h.not_infix]
    rfl

-- Delimiters inside comments of the other kind, and one that shares its star.
example : isWrite "/***/ --*/ é\n(/*--*/Select 1)" = false ∧ isWrite "/*/ select 1" = true := by
  decide

end Skaidb

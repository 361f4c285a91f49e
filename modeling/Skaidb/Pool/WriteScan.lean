import Skaidb.Codec.Utf8
import Skaidb.Pool.Writes
import Skaidb.Types.KeyOrder
import Skaidb.Types.Slice

/-!
# The scanner that tells writes from reads

The scanner works on byte positions and slices the text at the two it finds. Each position it
stops at is behind a byte that is a character of its own, so the slice never cuts through a
character. What the scanner skips does not matter to its answer.
-/

namespace Skaidb

open Codec

/-! ## Positions -/

/-- The pairs of bytes that are neighbours, as `windows(2)` gives them. -/
def windowsTwo (bytes : List UInt8) : List (UInt8 × UInt8) := bytes.zip bytes.tail

/-- The position behind the line comment at a position. -/
def lineEnd (bytes : List UInt8) (i : ℕ) : ℕ :=
  (((bytes.drop i).findIdx? (· == 0x0A)).map (i + · + 1)).getD bytes.length

/-- The position behind the block comment at a position. -/
def blockEnd (bytes : List UInt8) (i : ℕ) : ℕ :=
  (((windowsTwo (bytes.drop (i + 2))).findIdx? (· == (0x2A, 0x2F))).map
    (i + 2 + · + 2)).getD bytes.length

/-- The end of a line comment lies behind its beginning, so the scan goes on. -/
theorem lt_lineEnd {bytes : List UInt8} {i : ℕ} (hi : i < bytes.length) : i < lineEnd bytes i := by
  unfold lineEnd
  cases (bytes.drop i).findIdx? (· == 0x0A) with
  | none => exact hi
  | some j =>
    rw [Option.map_some, Option.getD_some]
    omega

/-- The end of a block comment lies behind its beginning, so the scan goes on. -/
theorem lt_blockEnd {bytes : List UInt8} {i : ℕ} (hi : i < bytes.length) :
    i < blockEnd bytes i := by
  unfold blockEnd
  cases (windowsTwo (bytes.drop (i + 2))).findIdx? (· == (0x2A, 0x2F)) with
  | none => exact hi
  | some j =>
    rw [Option.map_some, Option.getD_some]
    omega

/-- The position behind the whitespace, comments and parentheses at a position. Each of them
brings the scanner further on, so it ends. -/
def noiseEnd (bytes : List UInt8) (i : ℕ) : ℕ :=
  if hi : i < bytes.length then
    if isAsciiWhitespace bytes[i] || bytes[i] == 0x28 then noiseEnd bytes (i + 1)
    else if [0x2D, 0x2D].isPrefixOf (bytes.drop i) then
      have := lt_lineEnd hi
      noiseEnd bytes (lineEnd bytes i)
    else if [0x2F, 0x2A].isPrefixOf (bytes.drop i) then
      have := lt_blockEnd hi
      noiseEnd bytes (blockEnd bytes i)
    else i
  else i
termination_by bytes.length - i

/-- The position behind the word at a position. -/
def wordEnd (bytes : List UInt8) (i : ℕ) : ℕ :=
  (((bytes.drop i).findIdx? (!isWordByte ·)).map (i + ·)).getD bytes.length

/-- The part of a text between two byte positions. -/
def sliceText (text : List Char) (start stop : ℕ) : Except Panic (List Char) :=
  if stop < start then .error .sliceBoundary
  else do
    let (_, rest) ← splitAtByte start text
    let (word, _) ← splitAtByte (stop - start) rest
    return word

/-- Whether a statement counts as a write, with the slice that may panic. -/
def isWrite? (sql : String) : Except Panic Bool := do
  let bytes := utf8 sql
  let i := noiseEnd bytes 0
  let stop := wordEnd bytes i
  let word ← sliceText sql.toList i stop
  return !readKeywords.any fun k =>
    (utf8 (String.ofList word)).map toAsciiLower == (utf8 k).map toAsciiLower

/-! ## The scanner without positions -/

/-- Going to the end of a line comment by position is dropping the bytes through the first
newline. -/
theorem drop_lineEnd (bytes : List UInt8) (i : ℕ) :
    bytes.drop (lineEnd bytes i) = afterLine (bytes.drop i) := by
  have hafter (l : List UInt8) : afterLine l =
      ((l.findIdx? (· == 0x0A)).map fun j => l.drop (j + 1)).getD [] := by
    unfold afterLine
    induction l with
    | nil => rfl
    | cons x l ih =>
      rw [List.dropWhile_cons, List.findIdx?_cons]
      by_cases hx : x = 0x0A
      · simp [hx]
      · simp only [bne_iff_ne, ne_eq, hx, not_false_eq_true, if_true, beq_iff_eq, if_false, ih]
        cases l.findIdx? (· == 0x0A) <;> simp
  rw [hafter, lineEnd]
  cases (bytes.drop i).findIdx? (· == 0x0A) with
  | none => simp
  | some j => simp [Nat.add_assoc]

/-- Going to the end of a block comment by position is dropping the bytes through the first
closing. -/
theorem drop_blockEnd (bytes : List UInt8) (i : ℕ) :
    bytes.drop (blockEnd bytes i) = afterBlock (bytes.drop (i + 2)) := by
  have hafter (l : List UInt8) : afterBlock l =
      (((windowsTwo l).findIdx? (· == (0x2A, 0x2F))).map fun j => l.drop (j + 2)).getD [] := by
    induction l with
    | nil => rfl
    | cons x l ih =>
      cases l with
      | nil => simp [afterBlock, windowsTwo]
      | cons y l =>
        have hwindows : windowsTwo (x :: y :: l) = (x, y) :: windowsTwo (y :: l) := rfl
        rw [hwindows, List.findIdx?_cons, afterBlock, ih]
        by_cases hxy : x = 0x2A ∧ y = 0x2F
        · simp [hxy]
        · have hbegins : [0x2A, 0x2F].isPrefixOf (x :: y :: l) = false := by
            rw [Bool.eq_false_iff]
            intro h
            simp only [List.isPrefixOf, Bool.and_eq_true, beq_iff_eq] at h
            exact hxy ⟨h.1.symm, h.2.1.symm⟩
          have hpair : ((x, y) == ((0x2A, 0x2F) : UInt8 × UInt8)) = false := by
            rw [beq_eq_false_iff_ne]
            intro h
            exact hxy (Prod.mk.inj h)
          rw [hbegins, hpair]
          cases (windowsTwo (y :: l)).findIdx? (· == (0x2A, 0x2F)) <;> simp
  rw [hafter, blockEnd]
  cases (windowsTwo (bytes.drop (i + 2))).findIdx? (· == (0x2A, 0x2F)) with
  | none => simp
  | some j => simp [Nat.add_assoc]

/-- The scanner skips what the one without positions skips, given steps enough. -/
theorem drop_noiseEnd (bytes : List UInt8) (i fuel : ℕ) (h : bytes.length - i ≤ fuel) :
    bytes.drop (noiseEnd bytes i) = skipNoise fuel (bytes.drop i) := by
  fun_induction noiseEnd bytes i generalizing fuel with
  | case1 i hi hspace ih =>
    obtain ⟨fuel, rfl⟩ : ∃ n, fuel = n + 1 := ⟨fuel - 1, by omega⟩
    rw [ih fuel (by omega), List.drop_eq_getElem_cons hi, skipNoise, if_pos hspace]
  | case2 i hi hspace hline hlt ih =>
    obtain ⟨fuel, rfl⟩ : ∃ n, fuel = n + 1 := ⟨fuel - 1, by omega⟩
    rw [ih fuel (by omega), drop_lineEnd]
    rw [List.drop_eq_getElem_cons hi] at hline ⊢
    rw [skipNoise, if_neg hspace, if_pos hline]
  | case3 i hi hspace hline hblock hlt ih =>
    obtain ⟨fuel, rfl⟩ : ∃ n, fuel = n + 1 := ⟨fuel - 1, by omega⟩
    have hdrop : bytes.drop (i + 2) = (bytes.drop (i + 1)).drop 1 := by rw [List.drop_drop]
    rw [ih fuel (by omega), drop_blockEnd, hdrop]
    rw [List.drop_eq_getElem_cons hi] at hline hblock ⊢
    rw [skipNoise, if_neg hspace, if_neg hline, if_pos hblock]
  | case4 i hi hspace hline hblock =>
    obtain ⟨fuel, rfl⟩ : ∃ n, fuel = n + 1 := ⟨fuel - 1, by omega⟩
    rw [List.drop_eq_getElem_cons hi] at hline hblock ⊢
    rw [skipNoise, if_neg hspace, if_neg hline, if_neg hblock]
  | case5 i hi =>
    rw [List.drop_eq_nil_of_le (by omega)]
    cases fuel <;> rfl

/-- What follows the leading whitespace, comments and parentheses. -/
def stripNoise (bytes : List UInt8) : List UInt8 := skipNoise bytes.length bytes

/-- With as many steps as there are bytes, all of the leading noise is skipped. -/
theorem skipNoise_of_le {bytes : List UInt8} {fuel : ℕ} (h : bytes.length ≤ fuel) :
    skipNoise fuel bytes = stripNoise bytes := by
  have hfuel := drop_noiseEnd bytes 0 fuel (by omega)
  have hlength := drop_noiseEnd bytes 0 bytes.length (by omega)
  rw [List.drop_zero] at hfuel hlength
  exact hfuel.symm.trans hlength

/-- The bytes between the two positions are those of the word. -/
theorem drop_wordEnd (bytes : List UInt8) (i : ℕ) :
    (bytes.drop i).take (wordEnd bytes i - i) = (bytes.drop i).takeWhile isWordByte := by
  have hword (l : List UInt8) : l.takeWhile isWordByte =
      ((l.findIdx? (!isWordByte ·)).map l.take).getD l := by
    induction l with
    | nil => rfl
    | cons x l ih =>
      rw [List.takeWhile_cons, List.findIdx?_cons]
      cases hx : isWordByte x with
      | false => simp
      | true =>
        simp only [Bool.not_true, Bool.false_eq_true, if_true, if_false, ih]
        cases l.findIdx? (!isWordByte ·) <;> simp
  rw [hword, wordEnd]
  cases (bytes.drop i).findIdx? (!isWordByte ·) with
  | none => simp
  | some j => simp

/-! ## Positions between characters -/

/-- A position of a text between two characters, before the first or behind the last. -/
def Boundary (text : List Char) (i : ℕ) : Prop :=
  ∃ front rest, text = front ++ rest ∧ (utf8Bytes front).length = i

section Boundaries

variable {text : List Char} {i stop : ℕ}

/-- The length of a text is that of its bytes. -/
theorem length_utf8Bytes (text : List Char) : (utf8Bytes text).length = byteLength text := by
  induction text with
  | nil => rfl
  | cons c text ih =>
    rw [utf8Bytes_cons, List.length_append, String.length_utf8EncodeChar, ih, byteLength_cons]

/-- A text is cut behind a part of it. -/
theorem splitAtByte_append (front rest : List Char) :
    splitAtByte (byteLength front) (front ++ rest) = .ok (front, rest) := by
  induction front with
  | nil => rw [byteLength_nil, List.nil_append, splitAtByte]
  | cons c front ih =>
    have hpos := c.utf8Size_pos
    obtain ⟨n, hn⟩ : ∃ n, byteLength (c :: front) = n + 1 :=
      ⟨byteLength (c :: front) - 1, by rw [byteLength_cons]; omega⟩
    have hrest : n + 1 - c.utf8Size = byteLength front := by
      rw [← hn, byteLength_cons]
      omega
    have hle : c.utf8Size ≤ n + 1 := by
      rw [← hn, byteLength_cons]
      omega
    rw [hn, List.cons_append, splitAtByte, if_pos hle, hrest, ih]

/-- The position before the first character is one at which the text can be cut. -/
theorem boundary_zero (text : List Char) : Boundary text 0 := ⟨[], text, rfl, rfl⟩

/-- The position behind the last character is one at which the text can be cut. -/
theorem boundary_length (text : List Char) : Boundary text (utf8Bytes text).length :=
  ⟨text, [], (List.append_nil text).symm, rfl⟩

/-- Behind a byte below 128 the text can be cut, as such a byte is a whole character. -/
theorem boundary_succ {x : UInt8} (hx : (utf8Bytes text)[i]? = some x) (hlt : x.toNat < 128) :
    Boundary text (i + 1) := by
  obtain ⟨hi, hget⟩ := List.getElem?_eq_some_iff.mp hx
  have hsplit : utf8Bytes text = (utf8Bytes text).take i ++ x :: (utf8Bytes text).drop (i + 1) := by
    rw [← hget, ← List.drop_eq_getElem_cons hi, List.take_append_drop]
  obtain ⟨front, c, rest, htext, hfront, hc, -⟩ := exists_split_of_lt hsplit hlt
  refine ⟨front ++ [c], rest, by rw [htext, List.append_assoc]; rfl, ?_⟩
  rw [utf8Bytes_append, hfront, utf8Bytes_cons, utf8EncodeChar_of_lt (by omega)]
  simp only [utf8Bytes_nil, List.append_nil, List.length_append, List.length_take,
    List.length_singleton]
  omega

/-- Cutting a text at two boundaries succeeds and gives the bytes between them. -/
theorem sliceText_of_boundary (hi : Boundary text i) (hstop : Boundary text stop)
    (hle : i ≤ stop) : ∃ word, sliceText text i stop = .ok word ∧
      utf8Bytes word = ((utf8Bytes text).drop i).take (stop - i) := by
  obtain ⟨front, rest, htext, rfl⟩ := hi
  obtain ⟨front', rest', htext', rfl⟩ := hstop
  obtain ⟨word, hword⟩ : ∃ word, front' = front ++ word := by
    rcases List.append_eq_append_iff.mp (htext.symm.trans htext') with ⟨word, h, -⟩ | ⟨mid, h, -⟩
    · exact ⟨word, h⟩
    · -- The second part is no shorter, so nothing is left of the first one.
      have hlength := congrArg (fun l => (utf8Bytes l).length) h
      simp only [utf8Bytes_append, List.length_append, length_utf8Bytes] at hlength hle
      cases mid with
      | nil => exact ⟨[], by rw [h]; simp⟩
      | cons c mid =>
        have hpos := c.utf8Size_pos
        rw [byteLength_cons] at hlength
        omega
  subst hword
  have hrest : rest = word ++ rest' := by
    rw [htext, List.append_assoc] at htext'
    exact List.append_cancel_left htext'
  have hlength : (utf8Bytes (front ++ word)).length - (utf8Bytes front).length =
      byteLength word := by
    rw [utf8Bytes_append, List.length_append, length_utf8Bytes word]
    omega
  refine ⟨word, ?_, ?_⟩
  · rw [sliceText, if_neg (by omega), hlength, htext, hrest, length_utf8Bytes,
      splitAtByte_append]
    show (do
      let (word, _) ← splitAtByte (byteLength word) (word ++ rest')
      return word) = Except.ok word
    rw [splitAtByte_append]
    rfl
  · rw [hlength, htext, hrest, utf8Bytes_append, List.drop_left, utf8Bytes_append,
      ← length_utf8Bytes, List.take_left]

/-- The scan leaves a line comment at a position where the text can be cut. -/
theorem boundary_lineEnd (text : List Char) (i : ℕ) :
    Boundary text (lineEnd (utf8Bytes text) i) := by
  unfold lineEnd
  cases hfind : ((utf8Bytes text).drop i).findIdx? (· == 0x0A) with
  | none => exact boundary_length text
  | some j =>
    obtain ⟨hj, hnewline, -⟩ := List.findIdx?_eq_some_iff_getElem.mp hfind
    have hget : (utf8Bytes text)[i + j]? = some 0x0A := by
      rw [← List.getElem?_drop, List.getElem?_eq_getElem hj]
      exact congrArg some (eq_of_beq hnewline)
    exact boundary_succ hget (by decide)

/-- The scan leaves a block comment at a position where the text can be cut. -/
theorem boundary_blockEnd (text : List Char) (i : ℕ) :
    Boundary text (blockEnd (utf8Bytes text) i) := by
  unfold blockEnd
  cases hfind : (windowsTwo ((utf8Bytes text).drop (i + 2))).findIdx? (· == (0x2A, 0x2F)) with
  | none => exact boundary_length text
  | some j =>
    obtain ⟨hj, hclosing, -⟩ := List.findIdx?_eq_some_iff_getElem.mp hfind
    have hwindow : (windowsTwo ((utf8Bytes text).drop (i + 2)))[j]? = some (0x2A, 0x2F) := by
      rw [List.getElem?_eq_getElem hj]
      exact congrArg some (eq_of_beq hclosing)
    obtain ⟨-, hsecond⟩ := List.getElem?_zip_eq_some.mp hwindow
    rw [List.getElem?_tail, List.getElem?_drop] at hsecond
    exact boundary_succ hsecond (by decide)

/-- The bytes that are skipped one by one: whitespace and the opening parenthesis. -/
theorem eq_of_space {x : UInt8} (h : (isAsciiWhitespace x || x == 0x28) = true) :
    x = 0x20 ∨ x = 0x09 ∨ x = 0x0A ∨ x = 0x0C ∨ x = 0x0D ∨ x = 0x28 := by
  simp only [isAsciiWhitespace, List.contains_cons, List.contains_nil, Bool.or_false,
    Bool.or_eq_true, beq_iff_eq] at h
  simpa only [or_assoc] using h

/-- The whitespace and the parenthesis are below 128, so skipping them stops at a boundary between
characters. -/
theorem lt_of_space {x : UInt8} (h : (isAsciiWhitespace x || x == 0x28) = true) :
    x.toNat < 128 := by
  rcases eq_of_space h with rfl | rfl | rfl | rfl | rfl | rfl <;> decide

/-- **The noise ends at a boundary,** so that slicing the rest of the statement does not panic. -/
theorem boundary_noiseEnd (h : Boundary text i) : Boundary text (noiseEnd (utf8Bytes text) i) := by
  fun_induction noiseEnd (utf8Bytes text) i with
  | case1 i hi hspace ih =>
    exact ih (boundary_succ (List.getElem?_eq_getElem hi) (lt_of_space hspace))
  | case2 i hi hspace hline hlt ih => exact ih (boundary_lineEnd text i)
  | case3 i hi hspace hline hblock hlt ih => exact ih (boundary_blockEnd text i)
  | case4 i hi hspace hline hblock => exact h
  | case5 i hi => exact h

/-- The letters of a word are below 128, so the word ends at a boundary between characters. -/
theorem lt_of_isWordByte {x : UInt8} (h : isWordByte x = true) : x.toNat < 128 := by
  simp only [isWordByte, Bool.or_eq_true, Bool.and_eq_true, decide_eq_true_eq, beq_iff_eq,
    UInt8.le_iff_toNat_le] at h
  rcases h with (h | h) | rfl
  · exact lt_of_le_of_lt h.2 (by decide)
  · exact lt_of_le_of_lt h.2 (by decide)
  · decide

/-- **A word ends at a boundary** when it begins at one, and not before. -/
theorem boundary_wordEnd (h : Boundary text i) :
    Boundary text (wordEnd (utf8Bytes text) i) ∧
      (i ≤ (utf8Bytes text).length → i ≤ wordEnd (utf8Bytes text) i) := by
  unfold wordEnd
  cases hfind : ((utf8Bytes text).drop i).findIdx? (!isWordByte ·) with
  | none => exact ⟨boundary_length text, fun hi => hi⟩
  | some j =>
    rw [Option.map_some, Option.getD_some]
    refine ⟨?_, fun _ => Nat.le_add_right i j⟩
    cases j with
    | zero => exact h
    | succ j =>
      obtain ⟨hj, -, hbefore⟩ := List.findIdx?_eq_some_iff_getElem.mp hfind
      have hword : isWordByte (((utf8Bytes text).drop i)[j]) = true := by
        simpa using hbefore j (Nat.lt_succ_self j)
      have hget : (utf8Bytes text)[i + j]? = some (((utf8Bytes text).drop i)[j]) := by
        rw [← List.getElem?_drop, List.getElem?_eq_getElem]
      exact boundary_succ hget (lt_of_isWordByte hword)

end Boundaries

/-- The bytes of a string are those of its characters. -/
theorem utf8_eq_utf8Bytes (s : String) : utf8 s = utf8Bytes s.toList := utf8_eq_flatMap s

/-- **The slice never panics**, and the word it takes decides. -/
theorem isWrite?_eq (sql : String) : isWrite? sql = .ok (isWrite sql) := by
  have hstart := boundary_noiseEnd (boundary_zero sql.toList)
  have hle : noiseEnd (utf8Bytes sql.toList) 0 ≤ (utf8Bytes sql.toList).length := by
    obtain ⟨front, rest, htext, hlength⟩ := hstart
    rw [← hlength, htext, utf8Bytes_append, List.length_append]
    exact Nat.le_add_right _ _
  obtain ⟨hend, hafter⟩ := boundary_wordEnd hstart
  obtain ⟨word, hslice, hword⟩ := sliceText_of_boundary hstart hend (hafter hle)
  have hskip := drop_noiseEnd (utf8Bytes sql.toList) 0 (utf8Bytes sql.toList).length (by omega)
  rw [drop_wordEnd, hskip, List.drop_zero] at hword
  unfold isWrite? isWrite
  rw [utf8_eq_utf8Bytes sql]
  dsimp only
  rw [hslice, ← hword]
  have hbytes : utf8 (String.ofList word) = utf8Bytes word := by
    rw [utf8_eq_utf8Bytes, String.toList_ofList]
  rw [← hbytes]
  rfl

end Skaidb

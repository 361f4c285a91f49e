import Mathlib.Data.List.Basic
import Mathlib.Tactic.Common

/-!
# Single bytes in UTF-8

A byte below 128 in the UTF-8 form of a text is a character of its own. So a text can be taken
apart at such a byte, and a scanner that stops at them only never stops inside a character.
-/

namespace Codec

/-- The UTF-8 form of a text, character by character. -/
def utf8Bytes (text : List Char) : List UInt8 := text.flatMap String.utf8EncodeChar

/-- The empty text has no bytes, as the recursion over a text needs it. -/
@[simp] theorem utf8Bytes_nil : utf8Bytes [] = [] := rfl

/-- The bytes of a text are those of its first character and then those of the rest. -/
theorem utf8Bytes_cons (c : Char) (text : List Char) :
    utf8Bytes (c :: text) = String.utf8EncodeChar c ++ utf8Bytes text := rfl

/-- The bytes of a text followed by another are those of the two texts in turn. -/
@[simp] theorem utf8Bytes_append (text text' : List Char) :
    utf8Bytes (text ++ text') = utf8Bytes text ++ utf8Bytes text' := List.flatMap_append

/-- A character below 128 is encoded by one byte, which is its number. -/
theorem utf8EncodeChar_of_lt {c : Char} (h : c.toNat < 128) :
    String.utf8EncodeChar c = [UInt8.ofNat c.toNat] := by
  have hle : c.val.toNat ≤ 0x7f := by
    have : c.toNat = c.val.toNat := rfl
    omega
  unfold String.utf8EncodeChar
  rw [if_pos hle]
  rfl

/-- The bytes of the other characters are not below 128. -/
theorem le_of_mem_utf8EncodeChar {c : Char} (h : 128 ≤ c.toNat) {x : UInt8}
    (hx : x ∈ String.utf8EncodeChar c) : 128 ≤ x.toNat := by
  have hnot : ¬ c.val.toNat ≤ 0x7f := by
    have : c.toNat = c.val.toNat := rfl
    omega
  have hbyte {n : ℕ} (hlow : 128 ≤ n) (hhigh : n < 256) : 128 ≤ (UInt8.ofNat n).toNat := by
    rw [UInt8.toNat_ofNat_of_lt' hhigh]
    exact hlow
  unfold String.utf8EncodeChar at hx
  dsimp only at hx
  rw [if_neg hnot] at hx
  split_ifs at hx
  · simp only [List.mem_cons, List.not_mem_nil, or_false] at hx
    rcases hx with rfl | rfl <;> exact hbyte (by omega) (by omega)
  · simp only [List.mem_cons, List.not_mem_nil, or_false] at hx
    rcases hx with rfl | rfl | rfl <;> exact hbyte (by omega) (by omega)
  · simp only [List.mem_cons, List.not_mem_nil, or_false] at hx
    rcases hx with rfl | rfl | rfl | rfl <;> exact hbyte (by omega) (by omega)

/-- A character of its own has the byte as its number. -/
theorem eq_of_mem_utf8EncodeChar {c : Char} {x : UInt8} (hx : x ∈ String.utf8EncodeChar c)
    (hlt : x.toNat < 128) : c.toNat = x.toNat ∧ String.utf8EncodeChar c = [x] := by
  have hc : c.toNat < 128 := by
    by_contra hge
    have hle := le_of_mem_utf8EncodeChar (by omega) hx
    omega
  rw [utf8EncodeChar_of_lt hc, List.mem_singleton] at hx
  subst hx
  rw [UInt8.toNat_ofNat_of_lt' (by omega : c.toNat < 256)]
  exact ⟨rfl, utf8EncodeChar_of_lt hc⟩

/-- **A text is taken apart at a byte below 128.** -/
theorem exists_split_of_lt {text : List Char} {front rest : List UInt8} {x : UInt8}
    (h : utf8Bytes text = front ++ x :: rest) (hlt : x.toNat < 128) :
    ∃ text₁ c text₂, text = text₁ ++ c :: text₂ ∧ utf8Bytes text₁ = front ∧
      c.toNat = x.toNat ∧ utf8Bytes text₂ = rest := by
  induction text generalizing front with
  | nil => simp at h
  | cons c text ih =>
    rw [utf8Bytes_cons] at h
    -- A byte behind the first character is in the rest of the text.
    have hbehind {front' : List UInt8} (hfront : front = String.utf8EncodeChar c ++ front')
        (hrest : utf8Bytes text = front' ++ x :: rest) :
        ∃ text₁ d text₂, c :: text = text₁ ++ d :: text₂ ∧ utf8Bytes text₁ = front ∧
          d.toNat = x.toNat ∧ utf8Bytes text₂ = rest := by
      obtain ⟨text₁, d, text₂, htext, hbytes, hd, htext₂⟩ := ih hrest
      refine ⟨c :: text₁, d, text₂, by rw [htext, List.cons_append], ?_, hd, htext₂⟩
      rw [utf8Bytes_cons, hbytes, hfront]
    rcases List.append_eq_append_iff.mp h with ⟨front', hfront, hrest⟩ | ⟨mid, hchar, hrest⟩
    · exact hbehind hfront hrest
    · cases mid with
      | nil =>
        rw [List.append_nil] at hchar
        exact @hbehind [] (by rw [hchar, List.append_nil]) hrest.symm
      | cons y mid =>
        obtain ⟨rfl, hrest⟩ := List.cons.inj hrest
        have hx : x ∈ String.utf8EncodeChar c := by
          rw [hchar]
          simp
        obtain ⟨hc, hone⟩ := eq_of_mem_utf8EncodeChar hx hlt
        rw [hone] at hchar
        obtain ⟨rfl, rfl⟩ : front = [] ∧ mid = [] := by
          cases front with
          | nil => simpa using hchar.symm
          | cons y front => simp at hchar
        exact ⟨[], c, text, rfl, rfl, hc, by simpa using hrest.symm⟩

end Codec

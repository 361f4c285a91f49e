import Skaidb.Codec.Text
import Skaidb.Types.Value

/-!
# Texts sliced by bytes

A text is stored in UTF-8 and is sliced at byte offsets. A slice that ends inside a character
stops the program, so it is told apart from a refusal. Bytes are read from the hexadecimal
digits of a text by slicing it two bytes at a time.
-/

namespace Skaidb

open Codec

/-- A slice of a text that ends inside a character or past its end. -/
inductive Panic where
  | sliceBoundary
  deriving DecidableEq

/-- The length of a text in bytes, as `str::len` counts it. -/
def byteLength (text : List Char) : ℕ := (text.map Char.utf8Size).sum

/-- Cut a text after a number of bytes. -/
def splitAtByte : ℕ → List Char → Except Panic (List Char × List Char)
  | 0, text => .ok ([], text)
  | _ + 1, [] => .error .sliceBoundary
  | n + 1, c :: text =>
    if c.utf8Size ≤ n + 1 then
      match splitAtByte (n + 1 - c.utf8Size) text with
      | .ok (front, rest) => .ok (c :: front, rest)
      | .error e => .error e
    else .error .sliceBoundary

/-- Read bytes from pairs of hexadecimal digits, two bytes of text after another, until one
is no number. -/
def unhexPairs : ℕ → List Char → OptionT (Except Panic) (List UInt8)
  | 0, _ => pure []
  | pairs + 1, text => do
    let (pair, rest) ← OptionT.lift (splitAtByte 2 text)
    let byte ← OptionT.mk (pure (fromStrRadix 16 256 pair))
    let bytes ← unhexPairs pairs rest
    pure (UInt8.ofNat byte :: bytes)

/-- The empty text takes no byte, so a slice may start at zero. -/
@[simp] theorem byteLength_nil : byteLength [] = 0 := rfl

/-- The length of a text is that of its first character and of the rest. -/
theorem byteLength_cons (c : Char) (text : List Char) :
    byteLength (c :: text) = c.utf8Size + byteLength text := by
  rw [byteLength, List.map_cons, List.sum_cons, byteLength]

/-- A text of characters of one byte has as many bytes as characters. -/
theorem byteLength_of_single {text : List Char} (h : ∀ c ∈ text, c.utf8Size = 1) :
    byteLength text = text.length := by
  induction text with
  | nil => rfl
  | cons c text ih =>
    have hrest := ih fun d hd => h d (List.mem_cons_of_mem c hd)
    rw [byteLength_cons, h c List.mem_cons_self, List.length_cons, hrest]
    omega

/-- Two characters of one byte are cut off a text. -/
theorem splitAtByte_two {c d : Char} (hc : c.utf8Size = 1) (hd : d.utf8Size = 1)
    (text : List Char) : splitAtByte 2 (c :: d :: text) = .ok ([c, d], text) := by
  simp [splitAtByte, hc, hd]

/-- A character of two bytes is cut off a text. -/
theorem splitAtByte_two_of_wide {c : Char} (hc : c.utf8Size = 2) (text : List Char) :
    splitAtByte 2 (c :: text) = .ok ([c], text) := by
  simp [splitAtByte, hc]

/-- Cutting a text after two bytes panics when its first character is wider than that. -/
theorem splitAtByte_two_of_wider {c : Char} (hc : 2 < c.utf8Size) (text : List Char) :
    splitAtByte 2 (c :: text) = .error .sliceBoundary := by
  have hle : ¬ c.utf8Size ≤ 1 + 1 := by omega
  rw [splitAtByte, if_neg hle]

/-- A wide character behind one byte is cut through. -/
theorem splitAtByte_two_of_wide_second {c d : Char} (hc : c.utf8Size = 1) (hd : 1 < d.utf8Size)
    (text : List Char) : splitAtByte 2 (c :: d :: text) = .error .sliceBoundary := by
  have hle : ¬ d.utf8Size ≤ 1 := by omega
  simp [splitAtByte, hc, hle]

section Pairs

variable {pairs : ℕ} {text pair rest : List Char}

/-- Cutting two digits off a text inside a character stops the reader with a panic. -/
theorem run_unhexPairs_of_error {e : Panic} (h : splitAtByte 2 text = .error e) :
    (unhexPairs (pairs + 1) text).run = .error e := by
  rw [unhexPairs, h]
  rfl

/-- A pair of characters that is no hexadecimal number makes the reader refuse the text. -/
theorem run_unhexPairs_of_none (h : splitAtByte 2 text = .ok (pair, rest))
    (hpair : fromStrRadix 16 256 pair = none) :
    (unhexPairs (pairs + 1) text).run = .ok none := by
  rw [unhexPairs, h]
  simp only [OptionT.lift, OptionT.mk, OptionT.run, bind, OptionT.bind, Except.bind, pure,
    Except.pure, hpair]

/-- A pair that is a number is read before the rest. -/
theorem run_unhexPairs_of_some {byte : ℕ} (h : splitAtByte 2 text = .ok (pair, rest))
    (hpair : fromStrRadix 16 256 pair = some byte) :
    (unhexPairs (pairs + 1) text).run =
      (unhexPairs pairs rest).run.map (Option.map (UInt8.ofNat byte :: ·)) := by
  rw [unhexPairs, h]
  simp only [OptionT.lift, OptionT.mk, OptionT.run, bind, OptionT.bind, Except.bind, pure,
    OptionT.pure, Except.pure, hpair]
  generalize unhexPairs pairs rest = outcome
  rcases outcome with e | (_ | bytes) <;> rfl

end Pairs

/-- As many bytes are read as there are pairs. -/
theorem length_of_run_unhexPairs {pairs : ℕ} {text : List Char} {bytes : List UInt8}
    (h : (unhexPairs pairs text).run = .ok (some bytes)) : bytes.length = pairs := by
  induction pairs generalizing text bytes with
  | zero =>
    cases h
    rfl
  | succ pairs ih =>
    rcases hsplit : splitAtByte 2 text with e | ⟨pair, rest⟩
    · rw [run_unhexPairs_of_error hsplit] at h
      cases h
    · cases hpair : fromStrRadix 16 256 pair with
      | none =>
        rw [run_unhexPairs_of_none hsplit hpair] at h
        cases h
      | some byte =>
        rw [run_unhexPairs_of_some hsplit hpair] at h
        rcases hrest : (unhexPairs pairs rest).run with e | (_ | tail)
        · rw [hrest] at h
          cases h
        · rw [hrest] at h
          cases h
        · rw [hrest] at h
          cases h
          rw [List.length_cons, ih hrest]

/-- The digit pairs that bytes are written as are read back as these bytes. -/
theorem unhexPairs_hexText (bytes : List UInt8) :
    (unhexPairs bytes.length (hexText bytes)).run = .ok (some bytes) := by
  induction bytes with
  | nil => rfl
  | cons b bytes ih =>
    have hb : b.toNat < 256 := b.toNat_lt
    have hhigh := (toDigit_digitChar (by omega : b.toNat / 16 < 16)).1
    have hlow := (toDigit_digitChar (by omega : b.toNat % 16 < 16)).1
    have htext : hexText (b :: bytes) = Nat.digitChar (b.toNat / 16) ::
        Nat.digitChar (b.toNat % 16) :: hexText bytes := rfl
    have hsplit := splitAtByte_two hhigh.utf8Size hlow.utf8Size (hexText bytes)
    rw [htext, List.length_cons, run_unhexPairs_of_some hsplit (fromStrRadix_hexText b), ih]
    simp [Except.map]

/-- The digits of bytes are two for each. -/
theorem byteLength_hexText (bytes : List UInt8) :
    byteLength (hexText bytes) = bytes.length * 2 := by
  have hlength : (hexText bytes).length = bytes.length * 2 := by
    induction bytes with
    | nil => rfl
    | cons b bytes ih => simp [hexText] at ih ⊢; omega
  rw [byteLength_of_single fun c hc => (isHexDigit_of_mem_hexText hc).utf8Size, hlength]

end Skaidb

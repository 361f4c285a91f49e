import Skaidb.Data.XorLinear

/-!
# The key-placement hash

Keys are placed on the ring by a hash that folds their bytes into a word and then mixes the
word. Each byte is folded in by a bijection of the word and the mixing is a bijection, so two
keys that differ in one byte never share a place, and bytes appended to two keys neither part
nor join them.
-/

namespace Skaidb

/-- One byte is folded into the word as FNV-1a does: exclusive or, then the prime factor. -/
def foldByte (h : UInt64) (b : UInt8) : UInt64 := (h ^^^ b.toUInt64) * 0x100000001b3

/-- The word is mixed, so that words that are close are spread over the ring. -/
def mixWord (h : UInt64) : UInt64 :=
  let z := h
  let z := (z ^^^ (z >>> 30)) * 0xbf58476d1ce4e5b9
  let z := (z ^^^ (z >>> 27)) * 0x94d049bb133111eb
  z ^^^ (z >>> 31)

/-- `ring_hash`: the place of a key on the ring, the FNV-1a fold of its bytes mixed once more. -/
def ringHash (bytes : List UInt8) : UInt64 := mixWord (bytes.foldl foldByte 0xcbf29ce484222325)

/-! ## Bijections -/

/-- Multiplying by a factor that has an inverse merges no two words. -/
theorem mul_injective {a b : UInt64} (h : a * b = 1) :
    Function.Injective fun x : UInt64 => x * a := by
  intro x y hxy
  have hmul : x * a * b = y * a * b := congrArg (· * b) hxy
  rwa [UInt64.mul_assoc, UInt64.mul_assoc, h, UInt64.mul_one, UInt64.mul_one] at hmul

/-- An exclusive or with a shift to the right merges no two words. -/
theorem addRight_injective {f : UInt64 → UInt64} {k : ℕ} (hk : 0 < k)
    (h : ∀ z, (f z).toBitVec = XorLinear.addRight k z.toBitVec) : Function.Injective f := by
  intro x y hxy
  apply UInt64.toBitVec_inj.mp
  apply (XorLinear.bijective_addRight hk).injective
  rw [← h, ← h, hxy]

/-- The final mixing of the hash can be undone, so it merges no two words. -/
theorem mixWord_bijective : Function.Bijective mixWord := by
  apply Finite.injective_iff_bijective.mp
  have hfirst : Function.Injective fun z : UInt64 => z ^^^ (z >>> 30) :=
    addRight_injective (k := 30) (by decide) fun z => by simp [XorLinear.addRight]
  have hsecond : Function.Injective fun z : UInt64 => z ^^^ (z >>> 27) :=
    addRight_injective (k := 27) (by decide) fun z => by simp [XorLinear.addRight]
  have hthird : Function.Injective fun z : UInt64 => z ^^^ (z >>> 31) :=
    addRight_injective (k := 31) (by decide) fun z => by simp [XorLinear.addRight]
  have hmul : Function.Injective fun z : UInt64 => z * 0xbf58476d1ce4e5b9 :=
    mul_injective (b := 0x96de1b173f119089) (by decide)
  have hmul' : Function.Injective fun z : UInt64 => z * 0x94d049bb133111eb :=
    mul_injective (b := 0x319642b2d24d8ec3) (by decide)
  exact hthird.comp (hmul'.comp (hsecond.comp (hmul.comp hfirst)))

/-- Different words stay different when the same byte is folded in. -/
theorem foldByte_injective (b : UInt8) : Function.Injective (foldByte · b) := by
  intro h h' heq
  have hxor : h ^^^ b.toUInt64 = h' ^^^ b.toUInt64 :=
    mul_injective (b := 0xce965057aff6957b) (by decide) heq
  exact (UInt64.xor_left_inj _).mp hxor

/-- Folding different bytes into one word gives different words, so the last byte is always told
apart. -/
theorem foldByte_byte_injective (h : UInt64) : Function.Injective (foldByte h) := by
  intro b b' heq
  have hxor : h ^^^ b.toUInt64 = h ^^^ b'.toUInt64 :=
    mul_injective (b := 0xce965057aff6957b) (by decide) heq
  have hword : b.toUInt64 = b'.toUInt64 := (UInt64.xor_right_inj _).mp hxor
  exact UInt8.toUInt64_inj.mp hword

/-- Different words stay different when the same bytes are folded in. -/
theorem foldl_foldByte_injective (bytes : List UInt8) :
    Function.Injective fun h => bytes.foldl foldByte h := by
  induction bytes with
  | nil => exact fun _ _ h => h
  | cons b bytes ih => exact ih.comp (foldByte_injective b)

/-! ## Keys that never share a place -/

/-- **Key placement.** Bytes appended to two keys keep them on one place or apart as they were,
and two keys that differ in one byte are on different places, whatever stands before and
after it. -/
theorem ringHash_separates :
    (∀ key key' suffix : List UInt8,
      ringHash (key ++ suffix) = ringHash (key' ++ suffix) ↔ ringHash key = ringHash key') ∧
    ∀ (front back : List UInt8) (b b' : UInt8),
      ringHash (front ++ b :: back) = ringHash (front ++ b' :: back) ↔ b = b' := by
  have hplace (key key' : List UInt8) : ringHash key = ringHash key' ↔
      key.foldl foldByte 0xcbf29ce484222325 = key'.foldl foldByte 0xcbf29ce484222325 :=
    mixWord_bijective.injective.eq_iff
  constructor
  · intro key key' suffix
    rw [hplace, hplace, List.foldl_append, List.foldl_append]
    exact (foldl_foldByte_injective suffix).eq_iff
  · intro front back b b'
    rw [hplace, List.foldl_append, List.foldl_append, List.foldl_cons, List.foldl_cons]
    rw [(foldl_foldByte_injective back).eq_iff]
    exact (foldByte_byte_injective _).eq_iff

end Skaidb

import Skaidb.Types.ExactKey

/-!
# Numbers in keys

The two keys of a value differ in what its decimals contribute: the ordered key takes the
projection of a decimal to a double, the exact key its canonical bytes, which are longer. The
numeric components of an ordered key are read back from the bytes they start with, a decimal as
its projection.
-/

namespace Skaidb

open Codec

/-! ## Decimals in a value -/

namespace RawValue

mutual

/-- A decimal occurs in the value at any depth. -/
def containsDecimal : RawValue → Bool
  | .decimal _ => true
  | .array items => itemsContainDecimal items
  | .document fields => fieldsContainDecimal fields
  | _ => false

/-- A decimal occurs in one of the elements of an array, however deep. -/
def itemsContainDecimal : List RawValue → Bool
  | [] => false
  | v :: items => containsDecimal v || itemsContainDecimal items

/-- A decimal occurs in the value of a field. -/
def fieldsContainDecimal : List (String × RawValue) → Bool
  | [] => false
  | (_, v) :: fields => containsDecimal v || fieldsContainDecimal fields

end

end RawValue

/-- A decimal occurs in the value at any depth. -/
def Value.containsDecimal (v : Value) : Bool := v.raw.containsDecimal

/-- Two encodings are the same while nothing occurs that tells them apart, and the second is
longer once something does. -/
structure Outgrows (occurs : Bool) (code exact : List UInt8) : Prop where
  /-- Where nothing of it occurs, the codes are the same. -/
  same : occurs = false → exact = code
  /-- Where it occurs, the second code is the longer one. -/
  longer : occurs = true → code.length < exact.length

namespace Outgrows

variable {occurs occurs' : Bool} {code code' exact exact' : List UInt8}

/-- A code in which nothing occurs that would tell the forms apart is the same in both. -/
theorem refl (code : List UInt8) : Outgrows false code code :=
  ⟨fun _ => rfl, fun h => absurd h Bool.false_ne_true⟩

/-- The exact form of a code is at least as long as the ordered one. -/
theorem length_le (h : Outgrows occurs code exact) : code.length ≤ exact.length := by
  cases hoccurs : occurs with
  | false => rw [h.same hoccurs]
  | true => exact (h.longer hoccurs).le

/-- Two codes put one after the other outgrow when one of them does. -/
theorem append (h : Outgrows occurs code exact) (h' : Outgrows occurs' code' exact') :
    Outgrows (occurs || occurs') (code ++ code') (exact ++ exact') := by
  constructor
  · intro hnone
    obtain ⟨hfirst, hsecond⟩ := Bool.or_eq_false_iff.mp hnone
    rw [h.same hfirst, h'.same hsecond]
  · intro hsome
    have hle := h.length_le
    have hle' := h'.length_le
    rw [List.length_append, List.length_append]
    rcases Bool.or_eq_true_iff.mp hsome with hfirst | hsecond
    · have hlt := h.longer hfirst
      omega
    · have hlt := h'.longer hsecond
      omega

/-- A code put between a tag and a terminator outgrows as the code does. -/
theorem enclose (h : Outgrows occurs code exact) (tag stop : UInt8) :
    Outgrows occurs (tag :: (code ++ [stop])) (tag :: (exact ++ [stop])) := by
  have hboth := ((refl [tag]).append h).append (refl [stop])
  rwa [Bool.false_or, Bool.or_false] at hboth

/-- The codes are the same exactly when nothing occurs. -/
theorem eq_iff (h : Outgrows occurs code exact) : exact = code ↔ occurs = false := by
  refine ⟨fun heq => ?_, h.same⟩
  by_contra hoccurs
  have hlt := h.longer (Bool.eq_true_of_not_eq_false hoccurs)
  rw [heq] at hlt
  exact absurd hlt (Nat.lt_irrefl _)

end Outgrows

/-- The escaped form of a byte string has two bytes more at least. -/
theorem length_add_two_le_encodeBytes (bytes : List UInt8) :
    bytes.length + 2 ≤ (encodeBytes bytes).length := by
  induction bytes with
  | nil => exact Nat.le_refl 2
  | cons b bytes ih =>
    rw [encodeBytes]
    split
    · simp only [List.length_cons]
      omega
    · simp only [List.length_cons]
      omega

section Keys

variable (toF64 : Decimal → UInt64)

/-- **The two keys of a value.** A decimal takes nine bytes in the one and more than twenty in
the other, and everything else takes the same bytes in both. -/
theorem encodeExactInto_outgrows (v : RawValue) :
    Outgrows v.containsDecimal (encodeInto toF64 v) (encodeExactInto toF64 v) := by
  induction v using RawValue.induct with
  | decimal d =>
    have hbytes := length_add_two_le_encodeBytes d.exactBytes
    have hexact : d.exactBytes.length = 20 := by simp [Decimal.exactBytes]
    have hdouble : (encodeF64 (toF64 d)).length = 8 := length_beBytes 8 _
    refine ⟨fun h => absurd h (by simp [RawValue.containsDecimal]), fun _ => ?_⟩
    rw [encodeInto, encodeExactInto, List.length_cons, List.length_cons]
    omega
  | array items ih =>
    have hitems : Outgrows (RawValue.itemsContainDecimal items) (encodeItemsInto toF64 items)
        (encodeExactItems toF64 items) := by
      induction items with
      | nil => exact Outgrows.refl []
      | cons v items ihitems =>
        rw [RawValue.itemsContainDecimal, encodeItemsInto, encodeExactItems]
        apply (ih v List.mem_cons_self).append
        exact ihitems fun w hw => ih w (List.mem_cons_of_mem v hw)
    rw [RawValue.containsDecimal, encodeInto, encodeExactInto]
    exact hitems.enclose KeyTag.array KeyTag.end
  | document fields ih =>
    have hfields : Outgrows (RawValue.fieldsContainDecimal fields)
        (encodeFieldsInto toF64 fields) (encodeExactFields toF64 fields) := by
      induction fields with
      | nil => exact Outgrows.refl []
      | cons f fields ihfields =>
        have hname := (Outgrows.refl (encodeBytes (utf8 f.1))).append (ih f List.mem_cons_self)
        rw [Bool.false_or] at hname
        rw [RawValue.fieldsContainDecimal, encodeFieldsInto, encodeExactFields]
        apply hname.append
        exact ihfields fun g hg => ih g (List.mem_cons_of_mem f hg)
    rw [RawValue.containsDecimal, encodeInto, encodeExactInto]
    exact hfields.enclose KeyTag.document KeyTag.end
  | null | bool | int | float | string | bytes | uuid | timestamp =>
    refine ⟨fun _ => encodeExactInto_plain trivial, fun h => ?_⟩
    simp [RawValue.containsDecimal] at h

/-- **Keys and decimals.** The exact key of a value is its ordered key if and only if no decimal
occurs in it. -/
theorem exact_key_eq_key_iff (v : Value) :
    v.encodeExactKey toF64 = v.encodeKey toF64 ↔ v.containsDecimal = false :=
  (encodeExactInto_outgrows toF64 v.raw).eq_iff

end Keys

/-! ## Reading numbers back -/

/-- A 64-bit integer as a value, which is well formed whatever it is. -/
def Value.int (n : Int64) : Value := ⟨.int n, trivial⟩

/-- A count of milliseconds as a timestamp value, well formed whatever it is. -/
def Value.timestamp (n : Int64) : Value := ⟨.timestamp n, trivial⟩

/-- The bits of a double as a value, well formed whatever they are. -/
def Value.float (bits : UInt64) : Value := ⟨.float bits, trivial⟩

/-- A decimal as a value, well formed whatever its mantissa and scale. -/
def Value.decimal (d : Decimal) : Value := ⟨.decimal d, trivial⟩

/-- The bits of the float whose ordered word is given: the inverse of `encodeF64`. -/
def decodeF64 (raw : UInt64) : UInt64 := if raw &&& signBit ≠ 0 then raw ^^^ signBit else ~~~raw

/-- The number that an ordered key component starts with: an integer, a timestamp, a float, or
the float that a decimal is projected to. Nothing for another tag or a short component. -/
def decodeNumericKey (component : List UInt8) : Option Value :=
  match component with
  | [] => none
  | t :: rest =>
    if rest.length < 8 then none
    else
      let raw := UInt64.ofNat (ofBeBytes (rest.take 8))
      if t = KeyTag.int then some (.int (raw ^^^ signBit).toInt64)
      else if t = KeyTag.timestamp then some (.timestamp (raw ^^^ signBit).toInt64)
      else if t = KeyTag.float ∨ t = KeyTag.decimal then some (.float (decodeF64 raw))
      else none

/-- The tag of a key component that `decode_numeric_key` reads: an integer, a timestamp, a float or
a decimal. -/
def IsNumericTag (t : UInt8) : Prop :=
  t = KeyTag.int ∨ t = KeyTag.timestamp ∨ t = KeyTag.float ∨ t = KeyTag.decimal

/-- A component of a tag and a word is decoded by its tag, whatever bytes follow it. -/
theorem decodeNumericKey_word (tag : UInt8) (word : UInt64) (t : List UInt8) :
    decodeNumericKey (tag :: beBytes 8 word.toNat ++ t) =
      if tag = KeyTag.int then some (.int (word ^^^ signBit).toInt64)
      else if tag = KeyTag.timestamp then some (.timestamp (word ^^^ signBit).toInt64)
      else if tag = KeyTag.float ∨ tag = KeyTag.decimal then some (.float (decodeF64 word))
      else none := by
  have hlong : ¬ (beBytes 8 word.toNat ++ t).length < 8 := by
    rw [List.length_append, length_beBytes]
    omega
  have hword : UInt64.ofNat (ofBeBytes ((beBytes 8 word.toNat ++ t).take 8)) = word := by
    rw [List.take_left' (length_beBytes 8 _), ofBeBytes_beBytes,
      Nat.mod_eq_of_lt (show word.toNat < 256 ^ 8 from word.toNat_lt), UInt64.ofNat_toNat]
  rw [List.cons_append, decodeNumericKey, if_neg hlong]
  simp only [hword]

/-- Flipping the sign bit twice gives the integer back, which is how a key is decoded. -/
theorem toInt64_xor_signBit (n : Int64) :
    ((n.toUInt64 ^^^ signBit) ^^^ signBit).toInt64 = n := by
  rw [UInt64.xor_assoc, UInt64.xor_self, UInt64.xor_zero]
  exact Int64.toInt64_toUInt64 n

/-- The bits of a float are read back from the ordered form that its key holds. -/
theorem decodeF64_ordered (bits : UInt64) :
    decodeF64 (if bits &&& signBit = 0 then bits ||| signBit else ~~~bits) = bits := by
  have hlt := bits.toNat_lt
  unfold decodeF64
  split
  · next hpos =>
    have hsmall := (and_signBit_eq_zero_iff bits).mp hpos
    have hor : (bits ||| signBit).toNat = bits.toNat + 2 ^ 63 :=
      (UInt64.toNat_or _ _).trans (Nat.or_two_pow_eq_add_of_lt hsmall)
    have hset : (bits ||| signBit) &&& signBit ≠ 0 := by
      rw [Ne, and_signBit_eq_zero_iff, hor]
      omega
    have hxor : ((bits ||| signBit) ^^^ signBit).toNat = (bits ||| signBit).toNat ^^^ 2 ^ 63 :=
      UInt64.toNat_xor _ _
    rw [if_pos hset, ← UInt64.toNat_inj, hxor, hor, xor_two_pow_of_le (by omega) (by omega)]
    omega
  · next hneg =>
    have hnot : (~~~bits).toNat = 2 ^ 64 - 1 - bits.toNat := UInt64.toNat_not bits
    rw [and_signBit_eq_zero_iff] at hneg
    have hclear : ¬ (~~~bits &&& signBit ≠ 0) := by
      rw [not_not, and_signBit_eq_zero_iff, hnot]
      omega
    rw [if_neg hclear, UInt64.not_not]

/-- A short component and one with another tag hold no number. -/
theorem decodeNumericKey_eq_none_iff (component : List UInt8) :
    decodeNumericKey component = none ↔
      component.length < 9 ∨ ∀ t, component.head? = some t → ¬ IsNumericTag t := by
  cases component with
  | nil => simp [decodeNumericKey]
  | cons t rest =>
    have hlength : (t :: rest).length < 9 ↔ rest.length < 8 := by
      rw [List.length_cons]
      omega
    rw [hlength, decodeNumericKey]
    simp only [List.head?_cons, Option.some.injEq, forall_eq']
    by_cases hshort : rest.length < 8
    · simp [hshort]
    · rw [if_neg hshort, or_iff_right hshort]
      unfold IsNumericTag
      split
      · next h => simp [h]
      · next h =>
        split
        · next h' => simp [h']
        · next h' =>
          split
          · next h'' => simp [h'']
          · next h'' => simp [h, h', h'']

section Components

variable (toF64 : Decimal → UInt64)

/-- The number that is read from the key of a value. -/
def numericPart : RawValue → Option Value
  | .int n => some (.int n)
  | .timestamp n => some (.timestamp n)
  | .float bits => some (.float bits)
  | .decimal d => some (.float (toF64 d))
  | _ => none

/-- **A component in front of others.** From the key of a value, whatever follows it, its number
is read. -/
theorem decodeNumericKey_encodeInto (v : RawValue) (t : List UInt8) :
    decodeNumericKey (encodeInto toF64 v ++ t) = numericPart toF64 v := by
  have hother (tag : UInt8) (body : List UInt8) (htag : ¬ IsNumericTag tag) :
      decodeNumericKey (tag :: body ++ t) = none := by
    rw [decodeNumericKey_eq_none_iff]
    right
    rintro t' ht'
    obtain rfl := Option.some.inj ht'
    exact htag
  cases v with
  | int n | timestamp n =>
    rw [encodeInto, encodeI64, decodeNumericKey_word, toInt64_xor_signBit]
    rfl
  | float bits =>
    rw [encodeInto, encodeF64, decodeNumericKey_word, decodeF64_ordered]
    rfl
  | decimal d =>
    rw [encodeInto, encodeF64, decodeNumericKey_word, decodeF64_ordered]
    rfl
  | null | bool | string | bytes | uuid | array | document =>
    rw [encodeInto]
    exact hother _ _ (by unfold IsNumericTag; decide)

/-- **Numbers come back from keys.** From the key of an integer, a timestamp or a float, with any
bytes behind it, the same number is read, and from the key of a decimal its projection. Bytes
that start with another tag, and fewer than nine bytes, hold no number. -/
theorem numeric_components_decode_back (t : List UInt8) :
    (∀ n, decodeNumericKey ((Value.int n).encodeKey toF64 ++ t) = some (.int n)) ∧
    (∀ n, decodeNumericKey ((Value.timestamp n).encodeKey toF64 ++ t) = some (.timestamp n)) ∧
    (∀ bits, decodeNumericKey ((Value.float bits).encodeKey toF64 ++ t) = some (.float bits)) ∧
    (∀ d, decodeNumericKey ((Value.decimal d).encodeKey toF64 ++ t) =
      some (.float (toF64 d))) ∧
    ∀ component, decodeNumericKey component = none ↔
      component.length < 9 ∨ ∀ tag, component.head? = some tag → ¬ IsNumericTag tag :=
  ⟨fun n => decodeNumericKey_encodeInto toF64 (.int n) t,
    fun n => decodeNumericKey_encodeInto toF64 (.timestamp n) t,
    fun bits => decodeNumericKey_encodeInto toF64 (.float bits) t,
    fun d => decodeNumericKey_encodeInto toF64 (.decimal d) t,
    decodeNumericKey_eq_none_iff⟩

end Components

end Skaidb

import Skaidb.Codec.Comparison
import Skaidb.Types.Key

/-!
# The order of keys

Byte order over keys is the structural order of the values: each transform turns
the order of its type into byte order, and each part of a key decides before
what follows it is looked at. Two containers are told apart at the first
difference provided no element starts with the terminator, which a null and a
name with a leading `U+0000` do.
-/

namespace Skaidb

open Codec

/-! ## The parts of a key -/

/-- Numbers moved by one distance keep their order. -/
theorem compare_toNat_of_shift {m n : ℕ} {x y d : ℤ} (hm : (m : ℤ) = x + d)
    (hn : (n : ℤ) = y + d) : compare m n = compare x y := by
  rcases lt_trichotomy x y with h | h | h
  · rw [compare_lt_iff_lt.mpr h, compare_lt_iff_lt.mpr (show m < n by omega)]
  · rw [compare_eq_iff_eq.mpr h, compare_eq_iff_eq.mpr (show m = n by omega)]
  · rw [compare_gt_iff_gt.mpr h, compare_gt_iff_gt.mpr (show m > n by omega)]

/-- The eight bytes of an integer sort bytewise as the integers do numerically. -/
theorem encodeI64_ranks (v w : Int64) :
    Ranks (encodeI64 v) (encodeI64 w) (compare v.toInt w.toInt) := by
  rw [← compare_toNat_of_shift (toNat_xor_signBit v) (toNat_xor_signBit w)]
  exact Ranks.beBytes (UInt64.toNat_lt _) (UInt64.toNat_lt _)

/-- The eight bytes of a float sort as sign and magnitude of the floats do. -/
theorem encodeF64_ranks (a b : UInt64) :
    Ranks (encodeF64 a) (encodeF64 b) (compare (signMagnitude a) (signMagnitude b)) := by
  rw [← compare_toNat_of_shift (toNat_ordered_bits a) (toNat_ordered_bits b)]
  exact Ranks.beBytes (UInt64.toNat_lt _) (UInt64.toNat_lt _)

/-- A zero byte lies below a string that starts with another byte. -/
theorem zero_ranks {x : List UInt8} (hx : ∃ b bytes, x = b :: bytes ∧ b ≠ 0) (rest : List UInt8) :
    Ranks (0x00 :: rest) x .lt := by
  obtain ⟨b, bytes, rfl, hb⟩ := hx
  have hlt : compare 0x00 b = .lt := if_pos (UInt8.pos_iff_ne_zero.mpr hb)
  have h := Ranks.cons_of_ne (a := 0x00) (b := b) (by simp [hlt]) rest bytes
  rwa [hlt] at h

/-- Bytes that were escaped sort as they did before, a zero byte still the lowest. -/
theorem escape_ranks (a b : UInt8) : Ranks (escape a) (escape b) (compare a b) := by
  by_cases ha : a = 0 <;> by_cases hb : b = 0
  · subst ha hb
    exact (Ranks.nil.cons 0xFF).cons 0x00
  · subst ha
    have h := zero_ranks (x := escape b) ⟨b, [], if_neg hb, hb⟩ [0xFF]
    rwa [← (show compare 0x00 b = .lt from if_pos (UInt8.pos_iff_ne_zero.mpr hb))] at h
  · subst hb
    have h := zero_ranks (x := escape a) ⟨a, [], if_neg ha, ha⟩ [0xFF]
    rw [← (show compare 0x00 a = .lt from if_pos (UInt8.pos_iff_ne_zero.mpr ha))] at h
    rw [Std.OrientedOrd.eq_swap]
    exact h.swap
  · rw [escape, escape, if_neg ha, if_neg hb]
    exact Ranks.symbol a b

/-- The two zero bytes that end a text sort below whatever byte could have followed. -/
theorem terminator_ranks (b : UInt8) : Ranks [0x00, 0x00] (escape b) .lt := by
  by_cases hb : b = 0
  · subst hb
    exact (Ranks.cons_of_ne (a := 0x00) (b := 0xFF) (by decide) [] []).cons 0x00
  · exact zero_ranks ⟨b, [], if_neg hb, hb⟩ [0x00]

/-- Encoded byte strings are in lexicographic byte order. -/
theorem encodeBytes_ranks (a b : List UInt8) :
    Ranks (encodeBytes a) (encodeBytes b) (compare a b) := by
  rw [encodeBytes_eq_flatMap, encodeBytes_eq_flatMap]
  exact Ranks.terminated ((Ranks.nil.cons 0x00).cons 0x00) (fun x _ => terminator_ranks x)
    (fun x _ => terminator_ranks x) (fun x _ y _ => escape_ranks x y)

/-! ## The structural order -/

section Structural

variable (toF64 : Decimal → UInt64)

mutual

/-- The order of values by type tag, then by the order of the type. -/
def structuralCmp : RawValue → RawValue → Ordering
  | .bool a, .bool b => compare a b
  | .int a, .int b => compare a.toInt b.toInt
  | .timestamp a, .timestamp b => compare a.toInt b.toInt
  | .float a, .float b => compare (signMagnitude a) (signMagnitude b)
  | .decimal a, .decimal b => compare (signMagnitude (toF64 a)) (signMagnitude (toF64 b))
  | .string a, .string b => compare (utf8 a) (utf8 b)
  | .bytes a, .bytes b => compare a b
  | .uuid a, .uuid b => compare a.bytes b.bytes
  | .array a, .array b => structuralCmpItems a b
  | .document a, .document b => structuralCmpFields a b
  | a, b => compare (keyTag a) (keyTag b)

/-- Arrays are ordered by element, a proper prefix first. -/
def structuralCmpItems : List RawValue → List RawValue → Ordering
  | [], [] => .eq
  | [], _ :: _ => .lt
  | _ :: _, [] => .gt
  | v :: a, w :: b => (structuralCmp v w).then (structuralCmpItems a b)

/-- Documents are ordered by name and value of their fields, a proper prefix first. -/
def structuralCmpFields : List (String × RawValue) → List (String × RawValue) → Ordering
  | [], [] => .eq
  | [], _ :: _ => .lt
  | _ :: _, [] => .gt
  | (j, v) :: a, (k, w) :: b =>
    ((compare (utf8 j) (utf8 k)).then (structuralCmp v w)).then (structuralCmpFields a b)

end

/-- Arrays compare by their first elements that differ, then by their lengths. -/
theorem structuralCmpItems_eq_compareLex (xs ys : List RawValue) :
    structuralCmpItems toF64 xs ys = List.compareLex (structuralCmp toF64) xs ys := by
  induction xs generalizing ys with
  | nil => cases ys <;> rw [structuralCmpItems] <;> rfl
  | cons v xs ih =>
    cases ys with
    | nil => rw [structuralCmpItems]; rfl
    | cons w ys => rw [structuralCmpItems, ih, List.compareLex_cons_cons]

/-- The order of two fields: by name, then by value. -/
def structuralCmpField (f g : String × RawValue) : Ordering :=
  (compare (utf8 f.1) (utf8 g.1)).then (structuralCmp toF64 f.2 g.2)

/-- Documents compare by their first fields that differ, then by how many they have. -/
theorem structuralCmpFields_eq_compareLex (xs ys : List (String × RawValue)) :
    structuralCmpFields toF64 xs ys = List.compareLex (structuralCmpField toF64) xs ys := by
  induction xs generalizing ys with
  | nil => cases ys <;> rw [structuralCmpFields] <;> rfl
  | cons f xs ih =>
    cases ys with
    | nil => rw [structuralCmpFields]; rfl
    | cons g ys => rw [structuralCmpFields, ih, List.compareLex_cons_cons, structuralCmpField]

/-- Values of different types are ordered by their tags. -/
theorem structuralCmp_of_keyTag_ne {a b : RawValue} (htag : keyTag a ≠ keyTag b) :
    structuralCmp toF64 a b = compare (keyTag a) (keyTag b) := by
  rw [structuralCmp]
  -- The branches before the last one compare values of one type.
  all_goals
    rintro _ _ rfl rfl
    exact htag rfl

end Structural

/-- No element of an array and no field of a document starts with the terminator:
arrays hold no null, and names are neither empty nor start with `U+0000`. -/
def NoEarlyEnd : RawValue → Prop
  | .array items => ∀ v ∈ items, v ≠ .null
  | .document fields => ∀ f ∈ fields, f.1 ≠ "" ∧ f.1.toList.head? ≠ some '\x00'
  | _ => True

instance (v : RawValue) : Decidable (v = .null) :=
  match v with
  | .null => .isTrue rfl
  | .bool _ | .int _ | .float _ | .decimal _ | .string _ | .bytes _ | .uuid _ | .timestamp _
  | .array _ | .document _ => .isFalse nofun

instance : DecidablePred NoEarlyEnd
  | .array items => inferInstanceAs (Decidable (∀ v ∈ items, v ≠ .null))
  | .document fields =>
    inferInstanceAs (Decidable (∀ f ∈ fields, f.1 ≠ "" ∧ f.1.toList.head? ≠ some '\x00'))
  | .null | .bool _ | .int _ | .float _ | .decimal _ | .string _ | .bytes _ | .uuid _
  | .timestamp _ => .isTrue trivial

/-- The first byte of a character is zero only for `U+0000`. -/
theorem utf8EncodeChar_head {c : Char} (hc : c ≠ '\x00') :
    ∃ b bytes, String.utf8EncodeChar c = b :: bytes ∧ b ≠ 0 := by
  have hval : c.val.toNat ≠ 0 := by
    intro hzero
    exact hc (Char.ext (UInt32.toNat_inj.mp hzero))
  have hbyte {n : ℕ} (h0 : n ≠ 0) (h256 : n < 256) : UInt8.ofNat n ≠ 0 := by
    intro hzero
    have := congrArg UInt8.toNat hzero
    rw [UInt8.toNat_ofNat_of_lt' h256] at this
    exact h0 this
  unfold String.utf8EncodeChar
  dsimp only
  split_ifs with h1 h2 h3
  · exact ⟨_, _, rfl, hbyte hval (by omega)⟩
  · exact ⟨_, _, rfl, hbyte (by omega) (by omega)⟩
  · exact ⟨_, _, rfl, hbyte (by omega) (by omega)⟩
  · exact ⟨_, _, rfl, hbyte (by omega) (by omega)⟩

/-- A nonempty name that does not start with `U+0000` starts with a nonzero byte. -/
theorem utf8_head {name : String} (hne : name ≠ "") (hnul : name.toList.head? ≠ some '\x00') :
    ∃ b bytes, utf8 name = b :: bytes ∧ b ≠ 0 := by
  cases hchars : name.toList with
  | nil => exact absurd (String.toList_eq_nil_iff.mp hchars) hne
  | cons c chars =>
    rw [hchars] at hnul
    obtain ⟨b, bytes, heq, hb⟩ := utf8EncodeChar_head (c := c) (fun hc => hnul (by rw [hc]; rfl))
    refine ⟨b, bytes ++ chars.flatMap String.utf8EncodeChar, ?_, hb⟩
    simp [utf8_eq_flatMap, hchars, heq]

/-- The encoding of a name that starts with a nonzero byte does so too. -/
theorem encodeBytes_head {name : String} (hne : name ≠ "")
    (hnul : name.toList.head? ≠ some '\x00') :
    ∃ b bytes, encodeBytes (utf8 name) = b :: bytes ∧ b ≠ 0 := by
  obtain ⟨b, bytes, heq, hb⟩ := utf8_head hne hnul
  refine ⟨b, encodeBytes bytes, ?_, hb⟩
  rw [heq, encodeBytes, if_neg hb]

section Order

variable {toF64 : Decimal → UInt64}

/-- Values of different types are told apart by their tags, so only values of one
type need to be compared further. -/
theorem encodeInto_ranks_of_keyTag {a b : RawValue}
    (hsame : keyTag a = keyTag b →
      Ranks (encodeInto toF64 a) (encodeInto toF64 b) (structuralCmp toF64 a b)) :
    Ranks (encodeInto toF64 a) (encodeInto toF64 b) (structuralCmp toF64 a b) := by
  by_cases htag : keyTag a = keyTag b
  · exact hsame htag
  · obtain ⟨x, hx⟩ := encodeInto_eq_cons toF64 a
    obtain ⟨y, hy⟩ := encodeInto_eq_cons toF64 b
    rw [structuralCmp_of_keyTag_ne toF64 htag, hx, hy]
    exact Ranks.cons_of_ne (fun heq => htag (Std.LawfulEqOrd.eq_of_compare heq)) x y

/-- The key of a value other than null does not start with the terminator. -/
theorem encodeInto_head {v : RawValue} (hv : v ≠ .null) :
    ∃ b bytes, encodeInto toF64 v = b :: bytes ∧ b ≠ 0 := by
  obtain ⟨body, hbody⟩ := encodeInto_eq_cons toF64 v
  refine ⟨keyTag v, body, hbody, ?_⟩
  cases v with
  | null => exact absurd rfl hv
  | _ => rw [keyTag]; decide

/-- The encoding of a field whose name ends late does not start with the terminator. -/
theorem encodeField_head {f : String × RawValue}
    (hname : f.1 ≠ "" ∧ f.1.toList.head? ≠ some '\x00') :
    ∃ b bytes, encodeBytes (utf8 f.1) ++ encodeInto toF64 f.2 = b :: bytes ∧ b ≠ 0 := by
  obtain ⟨b, bytes, heq, hb⟩ := encodeBytes_head hname.1 hname.2
  exact ⟨b, bytes ++ encodeInto toF64 f.2, by rw [heq, List.cons_append], hb⟩

/-- The keys of two values whose parts do not end early decide as the values are
ordered, whatever follows them. -/
theorem encodeInto_ranks {a b : RawValue} (ha : a.Everywhere NoEarlyEnd)
    (hb : b.Everywhere NoEarlyEnd) :
    Ranks (encodeInto toF64 a) (encodeInto toF64 b) (structuralCmp toF64 a b) := by
  refine encodeInto_ranks_of_keyTag fun htag => ?_
  induction a using RawValue.induct generalizing b with
  | null =>
    cases b with
    | null => exact Ranks.nil.cons _
    | _ => exact absurd htag (ne_of_beq_false rfl)
  | bool x =>
    cases b with
    | bool y =>
      rw [encodeInto, encodeInto, structuralCmp]
      cases x <;> cases y <;> exact (Ranks.symbol _ _).cons _
    | _ => exact absurd htag (ne_of_beq_false rfl)
  | int x =>
    cases b with
    | int y =>
      rw [encodeInto, encodeInto, structuralCmp]
      exact (encodeI64_ranks x y).cons _
    | _ => exact absurd htag (ne_of_beq_false rfl)
  | timestamp x =>
    cases b with
    | timestamp y =>
      rw [encodeInto, encodeInto, structuralCmp]
      exact (encodeI64_ranks x y).cons _
    | _ => exact absurd htag (ne_of_beq_false rfl)
  | float x =>
    cases b with
    | float y =>
      rw [encodeInto, encodeInto, structuralCmp]
      exact (encodeF64_ranks x y).cons _
    | _ => exact absurd htag (ne_of_beq_false rfl)
  | decimal x =>
    cases b with
    | decimal y =>
      rw [encodeInto, encodeInto, structuralCmp]
      exact (encodeF64_ranks (toF64 x) (toF64 y)).cons _
    | _ => exact absurd htag (ne_of_beq_false rfl)
  | string x =>
    cases b with
    | string y =>
      rw [encodeInto, encodeInto, structuralCmp]
      exact (encodeBytes_ranks (utf8 x) (utf8 y)).cons _
    | _ => exact absurd htag (ne_of_beq_false rfl)
  | bytes x =>
    cases b with
    | bytes y =>
      rw [encodeInto, encodeInto, structuralCmp]
      exact (encodeBytes_ranks x y).cons _
    | _ => exact absurd htag (ne_of_beq_false rfl)
  | uuid x =>
    cases b with
    | uuid y =>
      rw [encodeInto, encodeInto, structuralCmp]
      exact (Ranks.of_length_eq (x.length_eq.trans y.length_eq.symm)).cons _
    | _ => exact absurd htag (ne_of_beq_false rfl)
  | array xs ih =>
    cases b with
    | array ys =>
      obtain ⟨hxs, hxs'⟩ := RawValue.everywhere_array.mp ha
      obtain ⟨hys, hys'⟩ := RawValue.everywhere_array.mp hb
      rw [encodeInto, encodeInto, encodeItemsInto_eq_flatMap, encodeItemsInto_eq_flatMap,
        structuralCmp, structuralCmpItems_eq_compareLex]
      refine (Ranks.terminated (Ranks.nil.cons _) ?_ ?_ ?_).cons _
      · exact fun v hv => zero_ranks (encodeInto_head (hxs v hv)) []
      · exact fun v hv => zero_ranks (encodeInto_head (hys v hv)) []
      · intro v hv w hw
        exact encodeInto_ranks_of_keyTag (ih v hv (hxs' v hv) (hys' w hw))
    | _ => exact absurd htag (ne_of_beq_false rfl)
  | document xs ih =>
    cases b with
    | document ys =>
      obtain ⟨hxs, hxs'⟩ := RawValue.everywhere_document.mp ha
      obtain ⟨hys, hys'⟩ := RawValue.everywhere_document.mp hb
      rw [encodeInto, encodeInto, encodeFieldsInto_eq_flatMap, encodeFieldsInto_eq_flatMap,
        structuralCmp, structuralCmpFields_eq_compareLex]
      refine (Ranks.terminated (Ranks.nil.cons _) ?_ ?_ ?_).cons _
      · exact fun f hf => zero_ranks (encodeField_head (hxs f hf)) []
      · exact fun f hf => zero_ranks (encodeField_head (hys f hf)) []
      · intro f hf g hg
        refine (encodeBytes_ranks (utf8 f.1) (utf8 g.1)).append ?_
        exact encodeInto_ranks_of_keyTag (ih f hf (hxs' f hf) (hys' g hg))
    | _ => exact absurd htag (ne_of_beq_false rfl)

/-- **Key order.** Where no array holds a null and no field name is empty or starts
with `U+0000`, byte order over keys is the structural order of the values, and no
key is a proper prefix of another. -/
theorem totalCmp_eq_structuralCmp (toF64 : Decimal → UInt64) (a b : Value)
    (ha : a.raw.Everywhere NoEarlyEnd) (hb : b.raw.Everywhere NoEarlyEnd) :
    a.totalCmp toF64 b = structuralCmp toF64 a.raw b.raw ∧
      (a.encodeKey toF64 <+: b.encodeKey toF64 → a.encodeKey toF64 = b.encodeKey toF64) := by
  have hranks := @encodeInto_ranks toF64 _ _ ha hb
  exact ⟨hranks.compare_eq, hranks.separates.eq_of_isPrefix⟩

/-- A document before the one whose last field is an array with one element more. -/
theorem totalCmp_eq_structuralCmp_of_array_prefix :
    (⟨.document [("k", .null), ("v", .array [.int (-1), .bytes [0]])], by decide⟩ : Value).totalCmp
      (fun _ => 0)
      ⟨.document [("k", .null), ("v", .array [.int (-1), .bytes [0], .bool true])], by decide⟩ =
      .lt :=
  (totalCmp_eq_structuralCmp _ _ _ (by decide) (by decide)).1.trans (by decide)

end Order

end Skaidb

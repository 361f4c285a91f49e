import Skaidb.Types.KeyOrder

/-!
# Exact keys

An exact key is meant to be an equality key: one key for equal values, with
decimals compared as numbers, and no key a prefix of another. Arrays and
documents end with the byte a null element or an early field name starts with,
so two containers of which one ends there and the other goes on can get keys
that collide. Everything else is told apart.
-/

namespace Skaidb

open Codec

/-! ## Equality of values -/

mutual

/-- Structural equality with decimals compared as numbers and floats as bit patterns. -/
def Same : RawValue → RawValue → Prop
  | .decimal a, .decimal b => a.toRat = b.toRat
  | .array xs, .array ys => SameItems xs ys
  | .document xs, .document ys => SameFields xs ys
  | a, b => a = b

/-- Two arrays are equal when they are equal element by element and of one length. -/
def SameItems : List RawValue → List RawValue → Prop
  | [], [] => True
  | v :: xs, w :: ys => Same v w ∧ SameItems xs ys
  | _, _ => False

/-- Two documents are equal when their names agree in order and their values are equal. -/
def SameFields : List (String × RawValue) → List (String × RawValue) → Prop
  | [], [] => True
  | (j, v) :: xs, (k, w) :: ys => (j = k ∧ Same v w) ∧ SameFields xs ys
  | _, _ => False

end

/-- A name whose encoding starts with the terminator's byte. -/
def EndsEarly (name : String) : Prop := name = "" ∨ name.toList.head? = some '\x00'

mutual

/-- The first difference of two values is that one container ends where the other
goes on with the terminator's byte. -/
def Collide : RawValue → RawValue → Prop
  | .array xs, .array ys => CollideItems xs ys
  | .document xs, .document ys => CollideFields xs ys
  | _, _ => False

/-- One array ends where the other has a null. -/
def CollideItems : List RawValue → List RawValue → Prop
  | [], [] => False
  | [], w :: _ => w = .null
  | v :: _, [] => v = .null
  | v :: xs, w :: ys => Collide v w ∨ (Same v w ∧ CollideItems xs ys)

/-- One document ends where the other has a field with an early name. -/
def CollideFields : List (String × RawValue) → List (String × RawValue) → Prop
  | [], [] => False
  | [], (k, _) :: _ => EndsEarly k
  | (j, _) :: _, [] => EndsEarly j
  | (j, v) :: xs, (k, w) :: ys => j = k ∧ (Collide v w ∨ (Same v w ∧ CollideFields xs ys))

end

/-- The first components of two tuples that differ collide. -/
def CollideTuple : List Value → List Value → Prop
  | a :: as, b :: bs => Collide a.raw b.raw ∨ (Same a.raw b.raw ∧ CollideTuple as bs)
  | _, _ => False

/-- The value is compared as it stands, without normal forms or parts to be compared in turn. -/
def IsPlain : RawValue → Prop
  | .decimal _ | .array _ | .document _ => False
  | _ => True

/-- Plain values that are the same are equal. -/
theorem Same.eq {a b : RawValue} (h : Same a b) (ha : IsPlain a) : a = b := by
  cases a with
  | decimal _ | array _ | document _ => exact ha.elim
  | _ => rwa [Same] at h <;> simp

/-- A plain value is the same as itself, since plain values are compared by equality. -/
theorem Same.of_plain {v : RawValue} (hv : IsPlain v) : Same v v := by
  cases v with
  | decimal _ | array _ | document _ => exact hv.elim
  | _ => rw [Same] <;> simp

/-- Equal values are of one type and so start their keys with one tag. -/
theorem Same.keyTag_eq {a b : RawValue} (h : Same a b) : keyTag a = keyTag b := by
  cases a with
  | decimal _ => cases b <;> first | rfl | simp [Same] at h
  | array _ => cases b <;> first | rfl | simp [Same] at h
  | document _ => cases b <;> first | rfl | simp [Same] at h
  | _ => rw [h.eq trivial]

section Encode

variable {toF64 : Decimal → UInt64}

/-- A plain value has its ordinary key as its exact key. -/
theorem encodeExactInto_plain {v : RawValue} (hv : IsPlain v) :
    encodeExactInto toF64 v = encodeInto toF64 v := by
  cases v with
  | decimal _ | array _ | document _ => exact hv.elim
  | _ => rw [encodeExactInto] <;> simp

/-- Values that are equal have equal exact keys, down to every decimal in them. -/
theorem Same.encodeExactInto_eq {a b : RawValue} (h : Same a b) :
    encodeExactInto toF64 a = encodeExactInto toF64 b := by
  induction a using RawValue.induct generalizing b with
  | decimal x =>
    cases b with
    | decimal y =>
      rw [Same] at h
      rw [encodeExactInto, encodeExactInto, Decimal.exactBytes_eq_iff.mpr h]
    | _ => exact absurd h.keyTag_eq (ne_of_beq_false rfl)
  | array xs ih =>
    cases b with
    | array ys =>
      rw [Same] at h
      have hitems : encodeExactItems toF64 xs = encodeExactItems toF64 ys := by
        induction xs generalizing ys with
        | nil =>
          cases ys with
          | nil => rfl
          | cons w ys => simp [SameItems] at h
        | cons v xs ihxs =>
          cases ys with
          | nil => simp [SameItems] at h
          | cons w ys =>
            rw [SameItems] at h
            rw [encodeExactItems, encodeExactItems, ih v List.mem_cons_self h.1,
              ihxs (fun u hu => ih u (List.mem_cons_of_mem v hu)) ys h.2]
      rw [encodeExactInto, encodeExactInto, hitems]
    | _ => exact absurd h.keyTag_eq (ne_of_beq_false rfl)
  | document xs ih =>
    cases b with
    | document ys =>
      rw [Same] at h
      have hfields : encodeExactFields toF64 xs = encodeExactFields toF64 ys := by
        induction xs generalizing ys with
        | nil =>
          cases ys with
          | nil => rfl
          | cons g ys => simp [SameFields] at h
        | cons f xs ihxs =>
          cases ys with
          | nil => simp [SameFields] at h
          | cons g ys =>
            rw [SameFields] at h
            obtain ⟨⟨hname, hvalue⟩, hrest⟩ := h
            rw [encodeExactFields, encodeExactFields, hname, ih f List.mem_cons_self hvalue,
              ihxs (fun u hu => ih u (List.mem_cons_of_mem f hu)) ys hrest]
      rw [encodeExactInto, encodeExactInto, hfields]
    | _ => exact absurd h.keyTag_eq (ne_of_beq_false rfl)
  | _ => rw [h.eq trivial]

/-! ## Telling values apart -/

/-- Values of different types are told apart by their tags, so only values of one
type need to be looked at further. -/
theorem encodeExactInto_separates_of_keyTag {a b : RawValue}
    (hsame : keyTag a = keyTag b →
      Separates (encodeExactInto toF64 a) (encodeExactInto toF64 b) (Same a b)) :
    Separates (encodeExactInto toF64 a) (encodeExactInto toF64 b) (Same a b) := by
  by_cases htag : keyTag a = keyTag b
  · exact hsame htag
  · obtain ⟨x, hx⟩ := encodeExactInto_eq_cons toF64 a
    obtain ⟨y, hy⟩ := encodeExactInto_eq_cons toF64 b
    rw [hx, hy]
    exact Separates.of_head_ne htag x y _

/-- Plain values are told apart by their ordinary keys. -/
theorem encodeExactInto_separates_plain {a b : RawValue} (ha : IsPlain a) (hb : IsPlain b)
    (heq : structuralCmp toF64 a b = .eq → a = b) :
    Separates (encodeExactInto toF64 a) (encodeExactInto toF64 b) (Same a b) := by
  have hplain {v : RawValue} (hv : IsPlain v) : v.Everywhere NoEarlyEnd := by
    cases v with
    | decimal _ | array _ | document _ => exact hv.elim
    | _ => trivial
  rw [encodeExactInto_plain ha, encodeExactInto_plain hb]
  refine (encodeInto_ranks (hplain ha) (hplain hb)).separates.mono fun hcmp => ?_
  obtain rfl := heq hcmp
  exact Same.of_plain ha

/-- Floats at one place in the order have one bit pattern. -/
theorem signMagnitude_injective {a b : UInt64} (h : signMagnitude a = signMagnitude b) :
    a = b := by
  have ha := a.toNat_lt
  have hb := b.toNat_lt
  unfold signMagnitude at h
  apply UInt64.toNat_inj.mp
  split at h <;> split at h <;> omega

/-- The terminator is told apart from what does not start with its byte. -/
theorem end_separates {x : List UInt8} (hx : ∃ b bytes, x = b :: bytes ∧ b ≠ 0)
    (rest : List UInt8) (P : Prop) : Separates [KeyTag.end] (x ++ rest) P := by
  obtain ⟨b, bytes, rfl, hb⟩ := hx
  exact Separates.of_head_ne hb.symm [] (bytes ++ rest) P

/-- What does not start with the terminator's byte is told apart from it. -/
theorem separates_end {x : List UInt8} (hx : ∃ b bytes, x = b :: bytes ∧ b ≠ 0)
    (rest : List UInt8) (P : Prop) : Separates (x ++ rest) [KeyTag.end] P := by
  obtain ⟨b, bytes, rfl, hb⟩ := hx
  exact Separates.of_head_ne hb (bytes ++ rest) [] P

/-- The exact key of a value other than null does not start with the terminator. -/
theorem encodeExactInto_head {v : RawValue} (hv : v ≠ .null) :
    ∃ b bytes, encodeExactInto toF64 v = b :: bytes ∧ b ≠ 0 := by
  obtain ⟨body, hbody⟩ := encodeExactInto_eq_cons toF64 v
  refine ⟨keyTag v, body, hbody, ?_⟩
  cases v with
  | null => exact absurd rfl hv
  | _ => rw [keyTag]; decide

/-- Elements that are told apart give arrays that are told apart. -/
theorem encodeExactItems_separates {xs ys : List RawValue} (hcollide : ¬ CollideItems xs ys)
    (hitems : ∀ v ∈ xs, ∀ w, ¬ Collide v w →
      Separates (encodeExactInto toF64 v) (encodeExactInto toF64 w) (Same v w)) :
    Separates (encodeExactItems toF64 xs ++ [KeyTag.end])
      (encodeExactItems toF64 ys ++ [KeyTag.end]) (SameItems xs ys) := by
  induction xs generalizing ys with
  | nil =>
    cases ys with
    | nil => exact (Separates.of_length_eq rfl).mono fun _ => by simp [SameItems]
    | cons w ys =>
      rw [CollideItems] at hcollide
      simp only [encodeExactItems, List.nil_append, List.append_assoc]
      exact end_separates (encodeExactInto_head hcollide) _ _
  | cons v xs ih =>
    cases ys with
    | nil =>
      rw [CollideItems] at hcollide
      simp only [encodeExactItems, List.nil_append, List.append_assoc]
      exact separates_end (encodeExactInto_head hcollide) _ _
    | cons w ys =>
      rw [CollideItems, not_or] at hcollide
      rw [encodeExactItems, encodeExactItems, List.append_assoc, List.append_assoc, SameItems]
      refine (hitems v List.mem_cons_self w hcollide.1).append fun hsame => ?_
      exact ih (fun h => hcollide.2 ⟨hsame, h⟩) fun u hu => hitems u (List.mem_cons_of_mem v hu)

/-- The encoding of a name that does not end early starts with a nonzero byte. -/
theorem encodeBytes_head_of_not_endsEarly {name : String} (h : ¬ EndsEarly name) :
    ∃ b bytes, encodeBytes (utf8 name) = b :: bytes ∧ b ≠ 0 :=
  encodeBytes_head (fun hempty => h (Or.inl hempty)) (fun hnul => h (Or.inr hnul))

/-- Fields that are told apart give documents that are told apart. -/
theorem encodeExactFields_separates {xs ys : List (String × RawValue)}
    (hcollide : ¬ CollideFields xs ys)
    (hfields : ∀ f ∈ xs, ∀ w, ¬ Collide f.2 w →
      Separates (encodeExactInto toF64 f.2) (encodeExactInto toF64 w) (Same f.2 w)) :
    Separates (encodeExactFields toF64 xs ++ [KeyTag.end])
      (encodeExactFields toF64 ys ++ [KeyTag.end]) (SameFields xs ys) := by
  induction xs generalizing ys with
  | nil =>
    cases ys with
    | nil => exact (Separates.of_length_eq rfl).mono fun _ => by simp [SameFields]
    | cons g ys =>
      rw [CollideFields] at hcollide
      simp only [encodeExactFields, List.nil_append, List.append_assoc]
      exact end_separates (encodeBytes_head_of_not_endsEarly hcollide) _ _
  | cons f xs ih =>
    cases ys with
    | nil =>
      rw [CollideFields] at hcollide
      simp only [encodeExactFields, List.nil_append, List.append_assoc]
      exact separates_end (encodeBytes_head_of_not_endsEarly hcollide) _ _
    | cons g ys =>
      rw [CollideFields] at hcollide
      have hname : Separates (encodeBytes (utf8 f.1)) (encodeBytes (utf8 g.1)) (f.1 = g.1) :=
        (encodeBytes_ranks _ _).separates.mono fun h =>
          utf8_injective (Std.LawfulEqOrd.eq_of_compare h)
      rw [encodeExactFields, encodeExactFields, List.append_assoc (_ ++ _),
        List.append_assoc (_ ++ _), SameFields]
      refine (hname.append fun heq => ?_).append fun hsame => ?_
      · exact hfields f List.mem_cons_self g.2 fun h => hcollide ⟨heq, Or.inl h⟩
      · exact ih (fun h => hcollide ⟨hsame.1, Or.inr ⟨hsame.2, h⟩⟩)
          fun u hu => hfields u (List.mem_cons_of_mem f hu)

/-- Values that do not collide are told apart by their exact keys, whatever
follows them. -/
theorem encodeExactInto_separates {a b : RawValue} (hcollide : ¬ Collide a b) :
    Separates (encodeExactInto toF64 a) (encodeExactInto toF64 b) (Same a b) := by
  refine encodeExactInto_separates_of_keyTag fun htag => ?_
  induction a using RawValue.induct generalizing b with
  | null =>
    cases b with
    | null => exact encodeExactInto_separates_plain trivial trivial fun _ => rfl
    | _ => exact absurd htag (ne_of_beq_false rfl)
  | bool x =>
    cases b with
    | bool y =>
      refine encodeExactInto_separates_plain trivial trivial fun hcmp => ?_
      rw [structuralCmp] at hcmp
      rw [Std.LawfulEqOrd.eq_of_compare hcmp]
    | _ => exact absurd htag (ne_of_beq_false rfl)
  | int x =>
    cases b with
    | int y =>
      refine encodeExactInto_separates_plain trivial trivial fun hcmp => ?_
      rw [structuralCmp] at hcmp
      rw [Int64.toInt_inj.mp (compare_eq_iff_eq.mp hcmp)]
    | _ => exact absurd htag (ne_of_beq_false rfl)
  | timestamp x =>
    cases b with
    | timestamp y =>
      refine encodeExactInto_separates_plain trivial trivial fun hcmp => ?_
      rw [structuralCmp] at hcmp
      rw [Int64.toInt_inj.mp (compare_eq_iff_eq.mp hcmp)]
    | _ => exact absurd htag (ne_of_beq_false rfl)
  | float x =>
    cases b with
    | float y =>
      refine encodeExactInto_separates_plain trivial trivial fun hcmp => ?_
      rw [structuralCmp] at hcmp
      rw [signMagnitude_injective (compare_eq_iff_eq.mp hcmp)]
    | _ => exact absurd htag (ne_of_beq_false rfl)
  | decimal x =>
    cases b with
    | decimal y =>
      rw [encodeExactInto, encodeExactInto, Same]
      refine ((encodeBytes_ranks _ _).separates.mono fun hcmp => ?_).cons _
      exact Decimal.exactBytes_eq_iff.mp (Std.LawfulEqOrd.eq_of_compare hcmp)
    | _ => exact absurd htag (ne_of_beq_false rfl)
  | string x =>
    cases b with
    | string y =>
      refine encodeExactInto_separates_plain trivial trivial fun hcmp => ?_
      rw [structuralCmp] at hcmp
      rw [utf8_injective (Std.LawfulEqOrd.eq_of_compare hcmp)]
    | _ => exact absurd htag (ne_of_beq_false rfl)
  | bytes x =>
    cases b with
    | bytes y =>
      refine encodeExactInto_separates_plain trivial trivial fun hcmp => ?_
      rw [structuralCmp] at hcmp
      rw [Std.LawfulEqOrd.eq_of_compare hcmp]
    | _ => exact absurd htag (ne_of_beq_false rfl)
  | uuid x =>
    cases b with
    | uuid y =>
      refine encodeExactInto_separates_plain trivial trivial fun hcmp => ?_
      rw [structuralCmp] at hcmp
      have hbytes : x.bytes = y.bytes := Std.LawfulEqOrd.eq_of_compare hcmp
      cases x
      cases y
      cases hbytes
      rfl
    | _ => exact absurd htag (ne_of_beq_false rfl)
  | array xs ih =>
    cases b with
    | array ys =>
      rw [Collide] at hcollide
      rw [encodeExactInto, encodeExactInto, Same]
      refine (encodeExactItems_separates hcollide fun v hv w hvw => ?_).cons _
      exact encodeExactInto_separates_of_keyTag (ih v hv hvw)
    | _ => exact absurd htag (ne_of_beq_false rfl)
  | document xs ih =>
    cases b with
    | document ys =>
      rw [Collide] at hcollide
      rw [encodeExactInto, encodeExactInto, Same]
      refine (encodeExactFields_separates hcollide fun f hf w hfw => ?_).cons _
      exact encodeExactInto_separates_of_keyTag (ih f hf hfw)
    | _ => exact absurd htag (ne_of_beq_false rfl)

/-- The tuples are told apart when their first different components are. -/
theorem encodeExactTuple_eq_iff {as bs : List Value} (hcollide : ¬ CollideTuple as bs) :
    encodeExactTuple toF64 as = encodeExactTuple toF64 bs ↔
      List.Forall₂ (fun a b => Same a.raw b.raw) as bs := by
  induction as generalizing bs with
  | nil =>
    cases bs with
    | nil => simp
    | cons b bs =>
      obtain ⟨body, hbody⟩ := encodeExactInto_eq_cons toF64 b.raw
      simp [encodeExactTuple, Value.encodeExactKey, hbody]
  | cons a as ih =>
    cases bs with
    | nil =>
      obtain ⟨body, hbody⟩ := encodeExactInto_eq_cons toF64 a.raw
      simp [encodeExactTuple, Value.encodeExactKey, hbody]
    | cons b bs =>
      rw [CollideTuple, not_or] at hcollide
      have hrest (hsame : Same a.raw b.raw) := ih fun h => hcollide.2 ⟨hsame, h⟩
      rw [List.forall₂_cons]
      constructor
      · intro heq
        obtain ⟨hsame, htail⟩ := encodeExactInto_separates hcollide.1 _ _ heq
        exact ⟨hsame, (hrest hsame).mp htail⟩
      · rintro ⟨hsame, htail⟩
        exact congrArg₂ (· ++ ·) hsame.encodeExactInto_eq ((hrest hsame).mpr htail)

/-! ## Containers that go on where another ends -/

/-- The first container goes on with a null or an early name in the second. -/
inductive Continues : RawValue → RawValue → Prop
  /-- An array goes on with a null. -/
  | array (xs rest : List RawValue) : Continues (.array xs) (.array (xs ++ .null :: rest))
  /-- A document goes on with an early name. -/
  | document (xs rest : List (String × RawValue)) {name : String} (hname : EndsEarly name)
    (v : RawValue) : Continues (.document xs) (.document (xs ++ (name, v) :: rest))

/-- The elements of an array that goes on with a null. -/
theorem encodeExactItems_append_null (xs rest : List RawValue) :
    encodeExactItems toF64 (xs ++ .null :: rest) =
      encodeExactItems toF64 xs ++ KeyTag.end :: encodeExactItems toF64 rest := by
  induction xs with
  | nil => rfl
  | cons v xs ih => simp only [List.cons_append, encodeExactItems, ih, List.append_assoc]

/-- A name that ends early is encoded behind the terminator's byte. -/
theorem encodeBytes_of_endsEarly {name : String} (h : EndsEarly name) :
    ∃ body, encodeBytes (utf8 name) = KeyTag.end :: body := by
  rcases h with rfl | h
  · exact ⟨[0x00], rfl⟩
  · obtain ⟨chars, hchars⟩ := List.head?_eq_some_iff.mp h
    have hbytes : utf8 name = 0x00 :: chars.flatMap String.utf8EncodeChar := by
      rw [utf8_eq_flatMap, hchars]
      rfl
    exact ⟨0xFF :: encodeBytes (chars.flatMap String.utf8EncodeChar), by rw [hbytes]; rfl⟩

/-- The fields of a document that goes on with an early name. -/
theorem encodeExactFields_append_endsEarly (xs rest : List (String × RawValue)) {name : String}
    (hname : EndsEarly name) (v : RawValue) :
    ∃ body, encodeExactFields toF64 (xs ++ (name, v) :: rest) =
      encodeExactFields toF64 xs ++ KeyTag.end :: body := by
  obtain ⟨body, hbody⟩ := encodeBytes_of_endsEarly hname
  refine ⟨body ++ encodeExactInto toF64 v ++ encodeExactFields toF64 rest, ?_⟩
  induction xs with
  | nil => simp only [List.nil_append, encodeExactFields, hbody, List.cons_append]
  | cons f xs ih => simp only [List.cons_append, encodeExactFields, ih, List.append_assoc]

/-- The key of a container is a proper prefix of the key of every continuation. -/
theorem Continues.encodeExactInto_eq_append {a b : RawValue} (h : Continues a b) :
    ∃ suffix, suffix ≠ [] ∧ encodeExactInto toF64 b = encodeExactInto toF64 a ++ suffix := by
  cases h with
  | array xs rest =>
    refine ⟨encodeExactItems toF64 rest ++ [KeyTag.end], by simp, ?_⟩
    simp only [encodeExactInto, encodeExactItems_append_null, List.cons_append,
      List.append_assoc, List.nil_append]
  | document xs rest hname v =>
    obtain ⟨body, hbody⟩ := @encodeExactFields_append_endsEarly toF64 xs rest _ hname v
    refine ⟨body ++ [KeyTag.end], by simp, ?_⟩
    simp only [encodeExactInto, hbody, List.cons_append, List.append_assoc, List.nil_append]

end Encode

/-- **Exact keys.** Unless their first difference is a container that ends where the
other goes on with a null or an early name, two values have one exact key exactly
when they are the same, neither key is a proper prefix of the other, and a tuple is
determined by the concatenation of its keys. A container and its continuation
always break this. -/
theorem encodeExactKey_eq_iff (toF64 : Decimal → UInt64) :
    (∀ a b : Value, ¬ Collide a.raw b.raw →
      (a.encodeExactKey toF64 = b.encodeExactKey toF64 ↔ Same a.raw b.raw) ∧
      (a.encodeExactKey toF64 <+: b.encodeExactKey toF64 ∨
        b.encodeExactKey toF64 <+: a.encodeExactKey toF64 →
          a.encodeExactKey toF64 = b.encodeExactKey toF64)) ∧
    (∀ as bs : List Value, ¬ CollideTuple as bs →
      (encodeExactTuple toF64 as = encodeExactTuple toF64 bs ↔
        List.Forall₂ (fun a b => Same a.raw b.raw) as bs)) ∧
    (∀ a b : Value, Continues a.raw b.raw →
      ∃ suffix, suffix ≠ [] ∧ b.encodeExactKey toF64 = a.encodeExactKey toF64 ++ suffix) := by
  refine ⟨fun a b hcollide => ?_, fun as bs hcollide => encodeExactTuple_eq_iff hcollide,
    fun a b hcontinues => hcontinues.encodeExactInto_eq_append⟩
  have hseparates := @encodeExactInto_separates toF64 _ _ hcollide
  refine ⟨⟨hseparates.of_eq, fun h => h.encodeExactInto_eq⟩, ?_⟩
  rintro (hpre | hpre)
  · exact hseparates.eq_of_isPrefix hpre
  · exact (hseparates.symm.eq_of_isPrefix hpre).symm

/-- Arrays that differ in their last element have different keys, although both hold
a null. -/
theorem encodeExactKey_eq_iff_of_nulls :
    (⟨.array [.null, .int 1], by decide⟩ : Value).encodeExactKey (fun _ => 0) ≠
      (⟨.array [.null, .int 2], by decide⟩ : Value).encodeExactKey (fun _ => 0) := by
  have hcollide : ¬ Collide (.array [.null, .int 1]) (.array [.null, .int 2]) := by
    simp [Collide, CollideItems]
  intro heq
  have hsame := ((encodeExactKey_eq_iff (fun _ => 0)).1 ⟨.array [.null, .int 1], by decide⟩
    ⟨.array [.null, .int 2], by decide⟩ hcollide).1.mp heq
  simp [Same, SameItems] at hsame

/-- The arrays `[[], null]` and `[[null]]` have one key, and the key of `[]` is a proper
prefix of the key of `[null]`, so that a tuple is not determined by its keys. -/
theorem encodeExactKey_collision :
    ((⟨.array [.array [], .null], by decide⟩ : Value).encodeExactKey (fun _ => 0) =
      (⟨.array [.array [.null]], by decide⟩ : Value).encodeExactKey (fun _ => 0) ∧
      ¬ Same (.array [.array [], .null]) (.array [.array [.null]])) ∧
    ((⟨.array [], by decide⟩ : Value).encodeExactKey (fun _ => 0) <+:
      (⟨.array [.null], by decide⟩ : Value).encodeExactKey (fun _ => 0) ∧
      (⟨.array [], by decide⟩ : Value).encodeExactKey (fun _ => 0) ≠
      (⟨.array [.null], by decide⟩ : Value).encodeExactKey (fun _ => 0)) ∧
    encodeExactTuple (fun _ => 0) [⟨.array [], by decide⟩, ⟨.null, by decide⟩] =
      encodeExactTuple (fun _ => 0) [⟨.array [.null], by decide⟩] := by
  refine ⟨⟨by decide, by simp [Same, SameItems]⟩, ⟨by decide, by decide⟩, by decide⟩

end Skaidb

import Skaidb.Types.KeyOrder

/-!
# The placement prefix of a composite key

A table may be distributed by the first components of its primary key. They are cut off the
key of the array without decoding it: the tag of a component says how far it reaches, and a
text reaches to its terminator. A null shares its byte with the end of the array and a
container has no width, so both are refused.
-/

namespace Skaidb

open Codec

/-- The end of an escaped byte string, `i` bytes of which were read; the rest is given. -/
def skipEscapedFrom : ℕ → List UInt8 → Option ℕ
  | _, [] => none
  | i, b :: rest =>
    if b ≠ 0x00 then skipEscapedFrom (i + 1) rest
    else
      match rest with
      | [] => none
      | c :: rest =>
        if c = 0xFF then skipEscapedFrom (i + 2) rest
        else if c = 0x00 then some (i + 2)
        else none

/-- The length of the escaped byte string at the start, with its terminator. -/
def skipEscapedBytes (b : List UInt8) : Option ℕ := skipEscapedFrom 0 b

/-- How many bytes follow the tag of a component. -/
def skipComponent (tag : UInt8) (rest : List UInt8) : Option ℕ :=
  if tag = KeyTag.bool then some 1
  else if tag = KeyTag.int ∨ tag = KeyTag.timestamp ∨ tag = KeyTag.float ∨ tag = KeyTag.decimal then
    some 8
  else if tag = KeyTag.uuid then some 16
  else if tag = KeyTag.string ∨ tag = KeyTag.bytes then skipEscapedBytes rest
  else none

/-- The position behind so many components of a key, none when one of them is not a scalar's. -/
def skipComponents (key : List UInt8) : ℕ → ℕ → Option ℕ
  | 0, pos => some pos
  | n + 1, pos => do
    let tag ← key[pos]?
    let skip ← skipComponent tag (key.drop (pos + 1))
    let pos := pos + 1 + skip
    if pos > key.length then none else skipComponents key n pos

/-- The array tag and the first `n` components of the key of an array. -/
def encodedArrayPrefix (key : List UInt8) (n : ℕ) : Option (List UInt8) :=
  if n = 0 ∨ key.head? ≠ some KeyTag.array then none
  else (skipComponents key n 1).map key.take

/-- An array of well formed values is itself a value. -/
def Value.array (vs : List Value) : Value where
  raw := .array (vs.map Value.raw)
  wellFormed := by
    refine RawValue.everywhere_array.mpr ⟨trivial, fun v hv => ?_⟩
    obtain ⟨w, -, rfl⟩ := List.mem_map.mp hv
    exact w.wellFormed

/-- The value is neither null nor a container. -/
def RawValue.IsScalar : RawValue → Prop
  | .null | .array _ | .document _ => False
  | _ => True

instance : DecidablePred RawValue.IsScalar
  | .null | .array _ | .document _ => .isFalse id
  | .bool _ | .int _ | .float _ | .decimal _ | .string _ | .bytes _ | .uuid _ | .timestamp _ =>
    .isTrue trivial

/-- There are `n` components and the first `n` are scalars. -/
def Placed (n : ℕ) (items : List RawValue) : Prop :=
  n ≤ items.length ∧ ∀ v ∈ items.take n, v.IsScalar

instance (n : ℕ) (items : List RawValue) : Decidable (Placed n items) :=
  inferInstanceAs (Decidable (_ ∧ _))

/-! ## Skipping one component -/

/-- A byte other than zero is skipped by itself. -/
theorem skipEscapedFrom_of_ne {b : UInt8} (hb : b ≠ 0x00) (i : ℕ) (rest : List UInt8) :
    skipEscapedFrom i (b :: rest) = skipEscapedFrom (i + 1) rest := by
  cases rest <;> simp [skipEscapedFrom, hb]

/-- An escaped byte string is skipped up to its end, whatever follows. -/
theorem skipEscapedFrom_encodeBytes (bytes rest : List UInt8) (i : ℕ) :
    skipEscapedFrom i (encodeBytes bytes ++ rest) = some (i + (encodeBytes bytes).length) := by
  induction bytes generalizing i with
  | nil => simp [encodeBytes, skipEscapedFrom]
  | cons b bytes ih =>
    by_cases hb : b = 0x00
    · have hlength : i + 2 + (encodeBytes bytes).length =
          i + (0x00 :: 0xFF :: encodeBytes bytes).length := by
        simp only [List.length_cons]
        omega
      rw [encodeBytes, if_pos hb, ← hlength, ← ih (i + 2)]
      simp [skipEscapedFrom]
    · have hlength : i + 1 + (encodeBytes bytes).length = i + (b :: encodeBytes bytes).length := by
        rw [List.length_cons]
        omega
      rw [encodeBytes, if_neg hb, ← hlength, ← ih (i + 1), List.cons_append,
        skipEscapedFrom_of_ne hb]

/-- A component that is no scalar is not skipped. -/
theorem skipComponent_of_not_isScalar {v : RawValue} (hv : ¬ v.IsScalar) (rest : List UInt8) :
    skipComponent (keyTag v) rest = none := by
  cases v with
  | null | array _ | document _ => rfl
  | _ => exact absurd trivial hv

section Components

variable {toF64 : Decimal → UInt64}

/-- A scalar is skipped up to its end, whatever follows. -/
theorem skipComponent_of_isScalar {v : RawValue} (hv : v.IsScalar) :
    ∃ body, encodeInto toF64 v = keyTag v :: body ∧
      ∀ rest, skipComponent (keyTag v) (body ++ rest) = some body.length := by
  cases v with
  | null | array _ | document _ => exact hv.elim
  | bool b => exact ⟨_, by rw [encodeInto]; rfl, fun rest => rfl⟩
  | int i => exact ⟨_, by rw [encodeInto]; rfl, fun rest => rfl⟩
  | float bits => exact ⟨_, by rw [encodeInto]; rfl, fun rest => rfl⟩
  | decimal d => exact ⟨_, by rw [encodeInto]; rfl, fun rest => rfl⟩
  | timestamp t => exact ⟨_, by rw [encodeInto]; rfl, fun rest => rfl⟩
  | uuid u =>
    refine ⟨u.bytes, by rw [encodeInto]; rfl, fun rest => ?_⟩
    rw [u.length_eq]
    rfl
  | string s =>
    refine ⟨encodeBytes (utf8 s), by rw [encodeInto]; rfl, fun rest => ?_⟩
    have hskip := skipEscapedFrom_encodeBytes (utf8 s) rest 0
    rwa [Nat.zero_add] at hskip
  | bytes b =>
    refine ⟨encodeBytes b, by rw [encodeInto]; rfl, fun rest => ?_⟩
    have hskip := skipEscapedFrom_encodeBytes b rest 0
    rwa [Nat.zero_add] at hskip

/-! ## Skipping the components -/

/-- Any array has its first zero components in place, so skipping none succeeds. -/
theorem placed_zero (items : List RawValue) : Placed 0 items := ⟨Nat.zero_le _, by simp⟩

/-- A component in front is a scalar, and the rest has one component less. -/
theorem placed_succ_cons {n : ℕ} {v : RawValue} {items : List RawValue} :
    Placed (n + 1) (v :: items) ↔ v.IsScalar ∧ Placed n items := by
  unfold Placed
  rw [List.take_succ_cons, List.forall_mem_cons, List.length_cons, Nat.add_le_add_iff_right]
  tauto

/-- A scalar is skipped wherever it stands in the key. -/
theorem skipComponents_of_isScalar {v : RawValue} (hv : v.IsScalar) (front rest : List UInt8)
    (n : ℕ) : skipComponents (front ++ (encodeInto toF64 v ++ rest)) (n + 1) front.length =
      skipComponents (front ++ (encodeInto toF64 v ++ rest)) n
        (front.length + (encodeInto toF64 v).length) := by
  obtain ⟨body, hbody, hskip⟩ := @skipComponent_of_isScalar toF64 v hv
  rw [hbody]
  have htag : (front ++ (keyTag v :: body ++ rest))[front.length]? = some (keyTag v) := by simp
  have hdrop : (front ++ (keyTag v :: body ++ rest)).drop (front.length + 1) = body ++ rest := by
    simp
  have hpos : front.length + 1 + body.length = front.length + (keyTag v :: body).length := by
    rw [List.length_cons]
    omega
  have hfits : ¬ front.length + (keyTag v :: body).length >
      (front ++ (keyTag v :: body ++ rest)).length := by
    simp only [List.length_append]
    omega
  rw [skipComponents, htag]
  simp only [Option.bind_eq_bind, Option.bind_some]
  rw [hdrop, hskip, Option.bind_some, hpos, if_neg hfits]

/-- A component that is not a scalar is not skipped, wherever in the key it stands. -/
theorem skipComponents_of_not_isScalar {v : RawValue} (hv : ¬ v.IsScalar) (front rest : List UInt8)
    (n : ℕ) : skipComponents (front ++ (encodeInto toF64 v ++ rest)) (n + 1) front.length =
      none := by
  obtain ⟨body, hbody⟩ := encodeInto_eq_cons toF64 v
  rw [hbody, skipComponents]
  simp [skipComponent_of_not_isScalar hv]

/-- So many components are skipped, wherever they stand, exactly when they are there and are
scalars. -/
theorem skipComponents_items (front : List UInt8) (items : List RawValue) (n : ℕ) :
    skipComponents (front ++ (items.flatMap (encodeInto toF64) ++ [KeyTag.end])) n front.length =
      if Placed n items then
        some (front.length + ((items.take n).flatMap (encodeInto toF64)).length)
      else none := by
  induction n generalizing front items with
  | zero => simp [skipComponents, placed_zero]
  | succ n ih =>
    cases items with
    | nil =>
      -- The end of the array stands where the component would be.
      have hnone : ¬ Placed (n + 1) [] := by simp [Placed]
      rw [if_neg hnone]
      exact @skipComponents_of_not_isScalar toF64 .null id front [] n
    | cons v items =>
      rw [List.flatMap_cons, List.append_assoc]
      by_cases hv : v.IsScalar
      · have hrest := ih (front ++ encodeInto toF64 v) items
        rw [List.append_assoc, List.length_append] at hrest
        rw [skipComponents_of_isScalar hv, hrest, List.take_succ_cons, List.flatMap_cons,
          List.length_append, ← Nat.add_assoc]
        simp only [placed_succ_cons, hv, true_and]
      · have hnone : ¬ Placed (n + 1) (v :: items) := fun h => hv (placed_succ_cons.mp h).1
        rw [if_neg hnone, skipComponents_of_not_isScalar hv]

/-- The first components are cut off a key exactly when they are there and are scalars. -/
theorem encodedArrayPrefix_eq {n : ℕ} (hn : 1 ≤ n) (items : List RawValue) :
    encodedArrayPrefix (encodeInto toF64 (.array items)) n =
      if Placed n items then some (KeyTag.array :: (items.take n).flatMap (encodeInto toF64))
      else none := by
  have hzero : n ≠ 0 := by omega
  have hskip := @skipComponents_items toF64 [KeyTag.array] items n
  have hhead : (KeyTag.array :: (items.flatMap (encodeInto toF64) ++ [KeyTag.end])).head? =
      some KeyTag.array := rfl
  rw [encodeInto, encodeItemsInto_eq_flatMap, encodedArrayPrefix, if_neg (by simp [hzero])]
  rw [List.singleton_append, List.length_singleton] at hskip
  rw [hskip]
  split
  · have hcut : items.flatMap (encodeInto toF64) = (items.take n).flatMap (encodeInto toF64) ++
        (items.drop n).flatMap (encodeInto toF64) := by
      rw [← List.flatMap_append, List.take_append_drop]
    rw [Option.map_some, Nat.add_comm, List.take_succ_cons, hcut, List.append_assoc,
      List.take_left]
  · rfl

/-! ## Equal prefixes -/

/-- A scalar has no nested encoding that could end before it should. -/
theorem RawValue.IsScalar.noEarlyEnd {v : RawValue} (hv : v.IsScalar) :
    v.Everywhere NoEarlyEnd := by
  cases v with
  | null | array _ | document _ => exact hv.elim
  | _ => trivial

/-- Keys of scalars are told apart, whatever follows them. -/
theorem encodeInto_separates {v w : RawValue} (hv : v.IsScalar) (hw : w.IsScalar) :
    Separates (encodeInto toF64 v) (encodeInto toF64 w)
      (encodeInto toF64 v = encodeInto toF64 w) := by
  intro s t heq
  have hranks := @encodeInto_ranks toF64 v w hv.noEarlyEnd hw.noEarlyEnd
  have hrest := (hranks.separates s t heq).2
  rw [hrest] at heq
  exact ⟨List.append_cancel_right heq, hrest⟩

/-- Keys of as many scalars, one after another, are equal exactly when they are equal one by
one. -/
theorem flatMap_encodeInto_eq_iff {vs ws : List RawValue} (hlength : vs.length = ws.length)
    (hvs : ∀ v ∈ vs, v.IsScalar) (hws : ∀ w ∈ ws, w.IsScalar) :
    vs.flatMap (encodeInto toF64) = ws.flatMap (encodeInto toF64) ↔
      vs.map (encodeInto toF64) = ws.map (encodeInto toF64) := by
  induction vs generalizing ws with
  | nil =>
    cases ws with
    | nil => simp
    | cons w ws => cases hlength
  | cons v vs ih =>
    cases ws with
    | nil => cases hlength
    | cons w ws =>
      rw [List.forall_mem_cons] at hvs hws
      have hrest := ih (Nat.succ.inj hlength) hvs.2 hws.2
      have hfirst := @encodeInto_separates toF64 v w hvs.1 hws.1
      rw [List.flatMap_cons, List.flatMap_cons, List.map_cons, List.map_cons, List.cons.injEq,
        ← hrest]
      constructor
      · intro heq
        exact hfirst _ _ heq
      · rintro ⟨hkey, htail⟩
        rw [hkey, htail]

/-- Components of an array of values are the components as plain data. -/
theorem placed_map_raw {n : ℕ} {vs : List Value} :
    Placed n (vs.map Value.raw) ↔ n ≤ vs.length ∧ ∀ v ∈ vs.take n, v.raw.IsScalar := by
  unfold Placed
  rw [List.length_map, ← List.map_take, List.forall_mem_map]

/-- The prefix of the key of an array is found exactly when the components wanted are scalars in
place. -/
theorem encodedArrayPrefix_array {n : ℕ} (hn : 1 ≤ n) (vs : List Value) :
    encodedArrayPrefix ((Value.array vs).encodeKey toF64) n =
      if Placed n (vs.map Value.raw) then
        some (KeyTag.array :: (vs.take n).flatMap (·.encodeKey toF64))
      else none := by
  have hkeys : ((vs.map Value.raw).take n).flatMap (encodeInto toF64) =
      (vs.take n).flatMap (·.encodeKey toF64) := by
    rw [← List.map_take, List.flatMap_map]
    rfl
  rw [← hkeys]
  exact encodedArrayPrefix_eq hn (vs.map Value.raw)

/-- Two prefixes are equal when their components have equal keys one by one. -/
theorem encodedArrayPrefix_inj {n : ℕ} (hn : 1 ≤ n) {vs ws : List Value}
    (hvs : Placed n (vs.map Value.raw)) (hws : Placed n (ws.map Value.raw)) :
    encodedArrayPrefix ((Value.array vs).encodeKey toF64) n =
        encodedArrayPrefix ((Value.array ws).encodeKey toF64) n ↔
      (vs.take n).map (·.encodeKey toF64) = (ws.take n).map (·.encodeKey toF64) := by
  have hlength : ((vs.map Value.raw).take n).length = ((ws.map Value.raw).take n).length := by
    rw [List.length_take_of_le hvs.1, List.length_take_of_le hws.1]
  have hkeys := @flatMap_encodeInto_eq_iff toF64 _ _ hlength hvs.2 hws.2
  have hraw := @encodedArrayPrefix_eq toF64 n hn
  have hmap (us : List Value) : ((us.map Value.raw).take n).map (encodeInto toF64) =
      (us.take n).map (·.encodeKey toF64) := by
    rw [← List.map_take, List.map_map]
    rfl
  rw [hmap, hmap] at hkeys
  rw [← hkeys]
  change encodedArrayPrefix (encodeInto toF64 (.array (vs.map Value.raw))) n =
    encodedArrayPrefix (encodeInto toF64 (.array (ws.map Value.raw))) n ↔ _
  rw [hraw, hraw, if_pos hvs, if_pos hws, Option.some.injEq, List.cons.injEq]
  simp

/-- **Placement prefixes.** The first `n` components are cut off the key of an array exactly
when there are `n` and they are scalars other than null, and then the prefix is the array tag
and the keys of these components; two such prefixes are equal exactly when the components
have equal keys one by one, whatever follows. -/
theorem encodedArrayPrefix_spec (toF64 : Decimal → UInt64) {n : ℕ} (hn : 1 ≤ n)
    (vs ws : List Value) :
    ((encodedArrayPrefix ((Value.array vs).encodeKey toF64) n).isSome ↔
      n ≤ vs.length ∧ ∀ v ∈ vs.take n, v.raw.IsScalar) ∧
    (∀ key, encodedArrayPrefix ((Value.array vs).encodeKey toF64) n = some key →
      key = KeyTag.array :: (vs.take n).flatMap (·.encodeKey toF64)) ∧
    ((encodedArrayPrefix ((Value.array vs).encodeKey toF64) n).isSome →
      (encodedArrayPrefix ((Value.array ws).encodeKey toF64) n).isSome →
      (encodedArrayPrefix ((Value.array vs).encodeKey toF64) n =
          encodedArrayPrefix ((Value.array ws).encodeKey toF64) n ↔
        (vs.take n).map (·.encodeKey toF64) = (ws.take n).map (·.encodeKey toF64))) := by
  have hsome (us : List Value) :
      (encodedArrayPrefix ((Value.array us).encodeKey toF64) n).isSome ↔
        Placed n (us.map Value.raw) := by
    rw [encodedArrayPrefix_array hn us]
    split <;> simp_all
  refine ⟨(hsome vs).trans placed_map_raw, ?_, ?_⟩
  · intro key hkey
    rw [encodedArrayPrefix_array hn vs] at hkey
    split at hkey
    · exact (Option.some.inj hkey).symm
    · cases hkey
  · intro hvs hws
    exact encodedArrayPrefix_inj hn ((hsome vs).mp hvs) ((hsome ws).mp hws)

/-- Keys that share a text with a zero byte in it and a number are placed together, whatever
the third component is. -/
theorem encodedArrayPrefix_spec_two :
    encodedArrayPrefix ((Value.array [⟨.bytes [1, 0], trivial⟩, ⟨.int 7, trivial⟩,
        Value.null]).encodeKey fun _ => 0) 2 =
      encodedArrayPrefix ((Value.array [⟨.bytes [1, 0], trivial⟩, ⟨.int 7, trivial⟩,
        Value.string "x"]).encodeKey fun _ => 0) 2 :=
  ((encodedArrayPrefix_spec (fun _ => 0) (by decide : 1 ≤ 2) _ _).2.2 (by decide)
    (by decide)).mpr rfl

end Components

end Skaidb

import Skaidb.Types.DecimalText
import Skaidb.Types.Document
import Skaidb.Types.UuidText

/-!
# Values as JSON

JSON has fewer types than values have. Values that it can express come back from it, and the
others are rendered as texts, numbers and arrays of numbers. No value but null is rendered as
null, at any depth. Numbers of JSON are a type of their own, known by what is made from
integers and floats and by what they are read as.
-/

namespace Skaidb

/-! ## JSON -/

/-- JSON, with a type of numbers. An object is the list of its members in the order of
their names. -/
inductive Json (N : Type) where
  | null
  | bool (b : Bool)
  | number (n : N)
  | string (s : String)
  | array (items : List (Json N))
  | object (members : List (String × Json N))

/-- Induction over JSON, with the hypothesis for every element and every member. -/
@[elab_as_elim] theorem Json.induct {N : Type} {P : Json N → Prop} (null : P .null)
    (bool : ∀ b, P (.bool b)) (number : ∀ n, P (.number n)) (string : ∀ s, P (.string s))
    (array : ∀ items : List (Json N), (∀ j ∈ items, P j) → P (.array items))
    (object : ∀ members : List (String × Json N), (∀ m ∈ members, P m.2) → P (.object members))
    (j : Json N) : P j :=
  @Json.rec N P (fun items => ∀ j ∈ items, P j) (fun members => ∀ m ∈ members, P m.2)
    (fun m => P m.2) null bool number string array object
    (fun _ h => absurd h List.not_mem_nil)
    (fun _ _ hj hitems => List.forall_mem_cons.mpr ⟨hj, hitems⟩)
    (fun _ h => absurd h List.not_mem_nil)
    (fun _ _ hm hmembers => List.forall_mem_cons.mpr ⟨hm, hmembers⟩)
    (fun _ _ hj => hj) j

/-- The exponent of the float is not the greatest one. -/
def IsFinite (bits : UInt64) : Prop := bits &&& 0x7FF0000000000000 ≠ 0x7FF0000000000000

instance decidableIsFinite (bits : UInt64) : Decidable (IsFinite bits) :=
  inferInstanceAs (Decidable (_ ≠ _))

/-- What numbers of JSON are made from and read as. Floats are their bit patterns. -/
structure Numbers (N : Type) where
  /-- The number of a signed integer. -/
  fromI64 : Int64 → N
  /-- The number of a byte. -/
  fromU8 : UInt8 → N
  /-- The number of a float, if there is one. -/
  fromF64 : UInt64 → Option N
  /-- The number as a signed integer, if it is one. -/
  asI64 : N → Option Int64
  /-- The number as a float. -/
  asF64 : N → Option UInt64

/-- Numbers keep what they are made from, and are made from finite floats only. -/
structure Numbers.Lawful {N : Type} (nums : Numbers N) : Prop where
  /-- An integer comes back. -/
  asI64_fromI64 : ∀ i, nums.asI64 (nums.fromI64 i) = some i
  /-- A number made from a float is no integer. -/
  asI64_fromF64 : ∀ bits n, nums.fromF64 bits = some n → nums.asI64 n = none
  /-- A float comes back. -/
  asF64_fromF64 : ∀ bits n, nums.fromF64 bits = some n → nums.asF64 n = some bits
  /-- There is no number for a float that is not finite. -/
  fromF64_eq_none : ∀ bits, nums.fromF64 bits = none ↔ ¬ IsFinite bits

/-! ## Rendering and reading -/

/-- The bits of a float without its sign. -/
def magnitudeBits (bits : UInt64) : UInt64 := bits &&& 0x7FFFFFFFFFFFFFFF

/-- The text of a float that is no number of JSON. -/
def nonFiniteText (bits : UInt64) : String :=
  if magnitudeBits bits > 0x7FF0000000000000 then "NaN"
  else if bits &&& 0x8000000000000000 = 0 ∧ magnitudeBits bits ≠ 0 then "Infinity"
  else "-Infinity"

/-- The bits of the float that stands for no number. -/
def nanBits : UInt64 := 0x7FF8000000000000

namespace RawValue

variable {N : Type} (nums : Numbers N)

mutual

/-- `Value::to_json` on a raw value: decimals, UUIDs and floats that are not finite become texts,
bytes an array of numbers. -/
def toJson : RawValue → Json N
  | .null => .null
  | .bool b => .bool b
  | .int i => .number (nums.fromI64 i)
  | .timestamp t => .number (nums.fromI64 t)
  | .float bits =>
    match nums.fromF64 bits with
    | some n => .number n
    | none => .string (nonFiniteText bits)
  | .decimal d => .string d.display
  | .string s => .string s
  | .bytes b => .array (b.map fun byte => .number (nums.fromU8 byte))
  | .uuid u => .string u.display
  | .array items => .array (toJsonItems items)
  | .document fields => .object (Ascending.ofList utf8 (toJsonFields fields))

/-- The elements of an array, each rendered on its own and kept in their order. -/
def toJsonItems : List RawValue → List (Json N)
  | [] => []
  | v :: items => toJson v :: toJsonItems items

/-- The fields of a document with their values rendered and their names kept. -/
def toJsonFields : List (String × RawValue) → List (String × Json N)
  | [] => []
  | (name, v) :: fields => (name, toJson v) :: toJsonFields fields

end

mutual

/-- `Value::from_json` on a raw value: a number that no `i64` holds becomes a float. -/
def fromJson : Json N → RawValue
  | .null => .null
  | .bool b => .bool b
  | .number n =>
    match nums.asI64 n with
    | some i => .int i
    | none => .float ((nums.asF64 n).getD nanBits)
  | .string s => .string s
  | .array items => .array (fromJsonItems items)
  | .object members => .document (Ascending.ofList utf8 (fromJsonMembers members))

/-- The elements of a JSON array, each built on its own and kept in their order. -/
def fromJsonItems : List (Json N) → List RawValue
  | [] => []
  | j :: items => fromJson j :: fromJsonItems items

/-- The members of a JSON object as fields, with their values built and their names kept. -/
def fromJsonMembers : List (String × Json N) → List (String × RawValue)
  | [] => []
  | (name, j) :: members => (name, fromJson j) :: fromJsonMembers members

end

/-- Rendering the elements of an array is rendering each of them. -/
theorem toJsonItems_eq_map (items : List RawValue) :
    toJsonItems nums items = items.map (toJson nums) := by
  induction items with
  | nil => rfl
  | cons v items ih => rw [toJsonItems, ih, List.map_cons]

/-- Rendering the fields of a document is rendering the value of each of them. -/
theorem toJsonFields_eq_map (fields : List (String × RawValue)) :
    toJsonFields nums fields = fields.map fun f => (f.1, toJson nums f.2) := by
  induction fields with
  | nil => rfl
  | cons f fields ih => rw [toJsonFields, ih, List.map_cons]

/-- Building the elements of an array is building each of them. -/
theorem fromJsonItems_eq_map (items : List (Json N)) :
    fromJsonItems nums items = items.map (fromJson nums) := by
  induction items with
  | nil => rfl
  | cons j items ih => rw [fromJsonItems, ih, List.map_cons]

/-- Building the fields of a document is building the value of each member. -/
theorem fromJsonMembers_eq_map (members : List (String × Json N)) :
    fromJsonMembers nums members = members.map fun m => (m.1, fromJson nums m.2) := by
  induction members with
  | nil => rfl
  | cons m members ih => rw [fromJsonMembers, ih, List.map_cons]

/-- What is built from JSON is well formed, since its objects are collected into maps. -/
theorem wellFormed_fromJson (j : Json N) : (fromJson nums j).WellFormed := by
  induction j using Json.induct with
  | null => exact trivial
  | bool b => exact trivial
  | number n =>
    unfold fromJson
    split <;> exact trivial
  | string s => exact trivial
  | array items ih =>
    rw [fromJson, fromJsonItems_eq_map]
    refine everywhere_array.mpr ⟨trivial, fun v hv => ?_⟩
    obtain ⟨j, hj, rfl⟩ := List.mem_map.mp hv
    exact ih j hj
  | object members ih =>
    rw [fromJson, fromJsonMembers_eq_map]
    refine everywhere_document.mpr ⟨Ascending.sorted_ofList utf8 _, fun f hf => ?_⟩
    obtain ⟨m, hm, rfl⟩ := List.mem_map.mp (Ascending.mem_ofList utf8 hf)
    exact ih m hm

/-- The fields of a document that is a map are rendered in their order. -/
theorem toJson_document {fields : List (String × RawValue)} (h : Ascending.Sorted utf8 fields) :
    toJson nums (.document fields) = .object (fields.map fun f => (f.1, toJson nums f.2)) := by
  have hsorted : Ascending.Sorted utf8 (fields.map fun f => (f.1, toJson nums f.2)) :=
    List.pairwise_map.mpr h
  rw [toJson, toJsonFields_eq_map, Ascending.ofList_eq_self utf8 hsorted]

end RawValue

/-- `Value::to_json`: the JSON a value is rendered as, with serde_json's numbers as a parameter. -/
def Value.toJson {N : Type} (nums : Numbers N) (v : Value) : Json N := v.raw.toJson nums

/-- `Value::from_json`: the value a JSON text stands for, with serde_json's numbers as a
parameter. -/
def Value.fromJson {N : Type} (nums : Numbers N) (j : Json N) : Value :=
  ⟨RawValue.fromJson nums j, RawValue.wellFormed_fromJson nums j⟩

/-! ## Values that come back -/

namespace RawValue

/-- JSON has a form of its own for the value. -/
def IsPlain : RawValue → Prop
  | .float bits => IsFinite bits
  | .decimal _ | .bytes _ | .uuid _ | .timestamp _ => False
  | .null | .bool _ | .int _ | .string _ | .array _ | .document _ => True

section RoundTrip

variable {N : Type} {nums : Numbers N}

/-- A value that JSON can express comes back from it. -/
theorem fromJson_toJson (h : nums.Lawful) {v : RawValue} (hwf : v.WellFormed)
    (hplain : v.Everywhere IsPlain) : fromJson nums (toJson nums v) = v := by
  induction v using RawValue.induct with
  | null => rfl
  | bool b => rfl
  | int i => simp only [toJson, fromJson, h.asI64_fromI64]
  | float bits =>
    obtain ⟨n, hn⟩ : ∃ n, nums.fromF64 bits = some n :=
      Option.ne_none_iff_exists'.mp fun hnone => (h.fromF64_eq_none bits).mp hnone hplain
    simp only [toJson, hn, fromJson, h.asI64_fromF64 bits n hn, h.asF64_fromF64 bits n hn,
      Option.getD_some]
  | string s => rfl
  | decimal d => exact absurd hplain id
  | bytes b => exact absurd hplain id
  | uuid u => exact absurd hplain id
  | timestamp t => exact absurd hplain id
  | array items ih =>
    obtain ⟨-, hwf⟩ := everywhere_array.mp hwf
    obtain ⟨-, hplain⟩ := everywhere_array.mp hplain
    have hmap : items.map (fun v => fromJson nums (toJson nums v)) = items :=
      (List.map_congr_left fun v hv => ih v hv (hwf v hv) (hplain v hv)).trans (List.map_id items)
    rw [toJson, toJsonItems_eq_map, fromJson, fromJsonItems_eq_map, List.map_map]
    exact congrArg RawValue.array hmap
  | document fields ih =>
    obtain ⟨hsorted, hwf⟩ := everywhere_document.mp hwf
    obtain ⟨-, hplain⟩ := everywhere_document.mp hplain
    have hmap : fields.map (fun f => (f.1, fromJson nums (toJson nums f.2))) = fields := by
      refine (List.map_congr_left fun f hf => ?_).trans (List.map_id fields)
      rw [ih f hf (hwf f hf) (hplain f hf)]
      rfl
    rw [toJson_document nums hsorted, fromJson, fromJsonMembers_eq_map, List.map_map]
    change RawValue.document (Ascending.ofList utf8 (fields.map fun f =>
      (f.1, fromJson nums (toJson nums f.2)))) = _
    rw [hmap, Ascending.ofList_eq_self utf8 hsorted]

end RoundTrip

end RawValue

/-! ## Null and only null -/

/-- A step into a value: to an element of an array or to a field of a document. -/
inductive PathStep where
  | index (i : ℕ)
  | key (name : String)

/-- The value at the end of a path. -/
def RawValue.follow : List PathStep → RawValue → Option RawValue
  | [], v => some v
  | .index i :: path, .array items => items[i]?.bind (follow path)
  | .key name :: path, .document fields => (fields.lookup name).bind (follow path)
  | _ :: _, _ => none

/-- The JSON at the end of a path. -/
def Json.follow {N : Type} : List PathStep → Json N → Option (Json N)
  | [], j => some j
  | .index i :: path, .array items => items[i]?.bind (follow path)
  | .key name :: path, .object members => (members.lookup name).bind (follow path)
  | _ :: _, _ => none

/-- Looking up a name after all values were converted finds the converted value. -/
theorem lookup_map_snd {α β : Type} (f : α → β) (entries : List (String × α)) (name : String) :
    (entries.map fun e => (e.1, f e.2)).lookup name = (entries.lookup name).map f := by
  induction entries with
  | nil => rfl
  | cons e entries ih =>
    obtain ⟨k, a⟩ := e
    rw [List.map_cons, List.lookup_cons, List.lookup_cons, ih]
    dsimp only
    cases name == k <;> rfl

section Null

variable {N : Type} (nums : Numbers N)

/-- Of all values only null is rendered as the JSON null. -/
theorem RawValue.toJson_eq_null {v : RawValue} : toJson nums v = .null ↔ v = .null := by
  cases v with
  | float bits =>
    simp only [toJson]
    split <;> simp
  | _ => simp [toJson]

/-- Of all JSON values only null is read as a null. -/
theorem RawValue.fromJson_eq_null {j : Json N} : fromJson nums j = .null ↔ j = .null := by
  cases j with
  | number n =>
    simp only [fromJson]
    split <;> simp
  | _ => simp [fromJson]

/-- A number has nothing inside, and is not null. -/
theorem Json.follow_number (n : N) (path : List PathStep) :
    (Json.number n).follow path ≠ some .null := by
  cases path with
  | nil => simp [follow]
  | cons step path => cases step <;> simp [follow]

/-- What is at the end of a path in a value is rendered at the end of the path. -/
theorem RawValue.follow_toJson {path : List PathStep} {v w : RawValue} (hwf : v.WellFormed)
    (h : v.follow path = some w) :
    w.WellFormed ∧ (toJson nums v).follow path = some (toJson nums w) := by
  induction path generalizing v with
  | nil =>
    obtain rfl := Option.some.inj h
    exact ⟨hwf, rfl⟩
  | cons step path ih =>
    unfold follow at h
    split at h
    · next heq => cases heq
    · next i rest items heq =>
      obtain ⟨rfl, rfl⟩ := List.cons.inj heq
      obtain ⟨-, hitems⟩ := everywhere_array.mp hwf
      obtain ⟨u, hu, hw⟩ := Option.bind_eq_some_iff.mp h
      obtain ⟨hgood, hfollow⟩ := ih (hitems u (List.mem_of_getElem? hu)) hw
      refine ⟨hgood, ?_⟩
      rw [toJson, toJsonItems_eq_map, Json.follow, List.getElem?_map, hu]
      exact hfollow
    · next name rest fields heq =>
      obtain ⟨rfl, rfl⟩ := List.cons.inj heq
      obtain ⟨hsorted, hfields⟩ := everywhere_document.mp hwf
      obtain ⟨u, hu, hw⟩ := Option.bind_eq_some_iff.mp h
      obtain ⟨hgood, hfollow⟩ := ih (hfields (name, u) (Ascending.mem_of_lookup hu)) hw
      refine ⟨hgood, ?_⟩
      rw [toJson_document nums hsorted, Json.follow, lookup_map_snd, hu]
      exact hfollow
    · cases h

/-- Null is at the end of a path in the rendering only where it is in the value. -/
theorem RawValue.follow_null_of_toJson {path : List PathStep} {v : RawValue} (hwf : v.WellFormed)
    (h : (toJson nums v).follow path = some .null) : v.follow path = some .null := by
  induction path generalizing v with
  | nil =>
    obtain rfl := (toJson_eq_null nums).mp (Option.some.inj h)
    rfl
  | cons step path ih =>
    cases v with
    | array items =>
      obtain ⟨-, hitems⟩ := everywhere_array.mp hwf
      cases step with
      | key name => simp [toJson, Json.follow] at h
      | index i =>
        rw [toJson, toJsonItems_eq_map, Json.follow, List.getElem?_map] at h
        obtain ⟨j, hj, hnull⟩ := Option.bind_eq_some_iff.mp h
        obtain ⟨u, hu, rfl⟩ := Option.map_eq_some_iff.mp hj
        rw [follow, hu]
        exact ih (hitems u (List.mem_of_getElem? hu)) hnull
    | document fields =>
      obtain ⟨hsorted, hfields⟩ := everywhere_document.mp hwf
      rw [toJson_document nums hsorted] at h
      cases step with
      | index i => simp [Json.follow] at h
      | key name =>
        rw [Json.follow, lookup_map_snd] at h
        obtain ⟨j, hj, hnull⟩ := Option.bind_eq_some_iff.mp h
        obtain ⟨u, hu, rfl⟩ := Option.map_eq_some_iff.mp hj
        rw [follow, hu]
        exact ih (hfields (name, u) (Ascending.mem_of_lookup hu)) hnull
    | bytes b =>
      cases step with
      | key name => simp [toJson, Json.follow] at h
      | index i =>
        -- The elements are numbers.
        rw [toJson, Json.follow, List.getElem?_map] at h
        obtain ⟨j, hj, hnull⟩ := Option.bind_eq_some_iff.mp h
        obtain ⟨byte, -, rfl⟩ := Option.map_eq_some_iff.mp hj
        exact absurd hnull (Json.follow_number _ path)
    | float bits =>
      simp only [toJson] at h
      split at h <;> cases step <;> simp [Json.follow] at h
    | _ => cases step <;> simp [toJson, Json.follow] at h

end Null

/-- **Values as JSON.** When numbers keep what they are made from, every value of nulls,
booleans, integers, finite floats, strings, arrays and documents comes back from its
rendering. For every value at all, what it holds at the end of a path of indices and names is
rendered there, and it is null there, in the rendering and when that is read back, exactly when
the value holds null there. -/
theorem json_interop {N : Type} (nums : Numbers N) (h : nums.Lawful) (v : Value) :
    (v.raw.Everywhere RawValue.IsPlain → Value.fromJson nums (v.toJson nums) = v) ∧
    ∀ path, ((v.toJson nums).follow path = some .null ↔ v.raw.follow path = some .null) ∧
      ∀ w, v.raw.follow path = some w →
        (v.toJson nums).follow path = some (w.toJson nums) ∧
          (w.toJson nums = .null ↔ w = .null) ∧
          (RawValue.fromJson nums (w.toJson nums) = .null ↔ w = .null) := by
  refine ⟨fun hplain => ?_, fun path => ⟨⟨?_, fun hnull => ?_⟩, fun w hw => ⟨?_, ?_, ?_⟩⟩⟩
  · exact Value.ext (RawValue.fromJson_toJson h v.wellFormed hplain)
  · exact RawValue.follow_null_of_toJson nums v.wellFormed
  · exact (RawValue.follow_toJson nums v.wellFormed hnull).2
  · exact (RawValue.follow_toJson nums v.wellFormed hw).2
  · exact RawValue.toJson_eq_null nums
  · rw [RawValue.fromJson_eq_null, RawValue.toJson_eq_null]

/-! ## Numbers as they are stored -/

/-- A number as it is stored: an integer that is not negative, a negative one or a float. -/
inductive StoredNumber where
  | posInt (n : UInt64)
  | negInt (i : Int64)
  | float (bits : UInt64)

/-- What serde_json's `Number` does with a stored number, for the assumptions to be met by
something. -/
def storedNumbers : Numbers StoredNumber where
  fromI64 i := if i < 0 then .negInt i else .posInt i.toUInt64
  fromU8 b := .posInt b.toUInt64
  fromF64 bits := if IsFinite bits then some (.float bits) else none
  asI64
    | .posInt n => if n.toNat < 2 ^ 63 then some n.toInt64 else none
    | .negInt i => some i
    | .float _ => none
  asF64
    | .posInt n => some n.toFloat.toBits
    | .negInt i => some i.toFloat.toBits
    | .float bits => some bits

/-- An integer that is not negative keeps its value without the sign. -/
theorem toNat_toUInt64_lt {i : Int64} (h : ¬ i < 0) : i.toUInt64.toNat < 2 ^ 63 := by
  have hnonneg : ¬ i.toBitVec.toInt < 0 := fun hneg =>
    h (Int64.lt_iff_toInt_lt.mpr (by simpa using hneg))
  have hnat : i.toUInt64.toNat = i.toBitVec.toNat := rfl
  have hbits := i.toBitVec.isLt
  rw [BitVec.toInt_eq_toNat_cond] at hnonneg
  rw [hnat]
  split at hnonneg <;> omega

/-- Numbers that are stored as they are made keep what they are made from, so the assumptions about
JSON numbers can be met. -/
theorem storedNumbers_lawful : storedNumbers.Lawful where
  asI64_fromI64 i := by
    by_cases h : i < 0
    · simp [storedNumbers, h]
    · simpa [storedNumbers, h] using toNat_toUInt64_lt h
  asI64_fromF64 bits n hn := by
    simp only [storedNumbers] at hn ⊢
    split at hn
    · obtain rfl := Option.some.inj hn
      rfl
    · cases hn
  asF64_fromF64 bits n hn := by
    simp only [storedNumbers] at hn ⊢
    split at hn
    · obtain rfl := Option.some.inj hn
      rfl
    · cases hn
  fromF64_eq_none bits := by simp [storedNumbers]

/-- A document with a number and a null in an array. -/
def sampleDocument : Value :=
  Value.fromJson storedNumbers (.object [("a", .array [.number (.posInt 7), .null])])

/-- The document comes back from its rendering, which has its null in the same place. -/
theorem json_interop_document :
    Value.fromJson storedNumbers (sampleDocument.toJson storedNumbers) = sampleDocument ∧
      (sampleDocument.toJson storedNumbers).follow [.key "a", .index 1] = some .null := by
  obtain ⟨hback, hpath⟩ := json_interop storedNumbers storedNumbers_lawful sampleDocument
  refine ⟨hback ?_, (hpath [.key "a", .index 1]).1.mpr rfl⟩
  exact ⟨trivial, ⟨trivial, trivial, trivial, trivial⟩, trivial⟩

end Skaidb

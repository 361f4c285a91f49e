import Skaidb.Codec.Numeral
import Skaidb.Types.Document

/-!
# Paths into documents

A dotted path names a value inside nested documents. The lookup cuts the path at one dot after
another and goes down into a document at each; a path with no dot is the common case and is
looked up at once. What is found is what lies behind the segments of the path, one name after
another, so a field whose name has a dot is behind no path.
-/

namespace Skaidb

open Codec

/-- The document that a value is, none for a value of another type. -/
def Value.asDocument : Value → Option Document
  | ⟨.document fields, h⟩ => some ⟨fields, h⟩
  | _ => none

namespace Document

/-! ## The lookup -/

/-- Go down along the rest of a path. -/
def descend (doc : Document) (rest : List Char) : Option Value :=
  match _h : splitOnce '.' rest with
  | none => doc.get (String.ofList rest)
  | some (part, tail) =>
    (doc.get (String.ofList part)).bind fun v =>
      v.asDocument.bind fun doc => doc.descend tail
termination_by rest.length
decreasing_by
  rw [(splitOnce_eq_some_iff.mp _h).1, List.length_append, List.length_cons]
  omega

/-- `Document::get_path`: the value behind a dotted path, by the loop over its segments. -/
def getPath (doc : Document) (path : String) : Option Value :=
  match splitOnce '.' path.toList with
  | none => doc.get path
  | some (first, rest) =>
    (doc.get (String.ofList first)).bind fun v => v.asDocument.bind fun doc => doc.descend rest

/-! ## Segments -/

/-- `path.split('.')`: the names between the dots of a path, in their order. -/
def segments (path : String) : List String := (path.toList.splitOn '.').map String.ofList

/-- What lies behind names one after another, each looked up in the document that the last one led
to. -/
def walk : List String → Document → Option Value
  | [], _ => none
  | [name], doc => doc.get name
  | name :: names, doc => (doc.get name).bind fun v => v.asDocument.bind (walk names)

/-- A name that is not the last one of a path leads to a document, in which the rest is walked. -/
theorem walk_cons (doc : Document) (name : String) {names : List String} (h : names ≠ []) :
    walk (name :: names) doc = (doc.get name).bind fun v => v.asDocument.bind (walk names) := by
  cases names with
  | nil => exact absurd rfl h
  | cons next names => rfl

/-- The rest of a path leads where its segments lead. -/
theorem descend_eq_walk (doc : Document) (rest : List Char) :
    doc.descend rest = walk ((rest.splitOn '.').map String.ofList) doc := by
  induction hn : rest.length using Nat.strong_induction_on generalizing doc rest with
  | h n ih =>
    rw [descend]
    split
    · next hcut =>
      rw [List.splitOn_eq_singleton (splitOnce_eq_none_iff.mp hcut)]
      rfl
    · next part tail hcut =>
      obtain ⟨rfl, hfree⟩ := splitOnce_eq_some_iff.mp hcut
      have hlt : tail.length < n := by
        rw [← hn, List.length_append, List.length_cons]
        omega
      have hsegments : (tail.splitOn '.').map String.ofList ≠ [] := by
        rw [ne_eq, List.map_eq_nil_iff]
        exact List.splitOn_ne_nil _ _
      rw [List.splitOn_append_cons_self_of_not_mem hfree, List.map_cons, walk_cons _ _ hsegments]
      have htail (doc : Document) :
          doc.descend tail = walk ((tail.splitOn '.').map String.ofList) doc :=
        ih _ hlt doc tail rfl
      simp only [htail]

/-- The loop of `get_path` leads where the segments of the path lead one after another. -/
theorem getPath_eq_walk (doc : Document) (path : String) :
    doc.getPath path = walk (segments path) doc := by
  have hpath : doc.getPath path = doc.descend path.toList := by
    rw [getPath, descend]
    cases splitOnce '.' path.toList with
    | none => rw [String.ofList_toList]
    | some parts => rfl
  rw [hpath, descend_eq_walk]
  rfl

/-! ## Fields that are set -/

/-- The value of a field once a field is set. -/
theorem get_insert (doc : Document) (name key : String) (value : Value) :
    (doc.insert name value).get key = if key = name then some value else doc.get key := by
  apply value_eq_of_map_raw
  rw [map_raw_get, lookup_insert]
  by_cases h : key = name
  · rw [if_pos h, if_pos (beq_iff_eq.mpr h)]
    rfl
  · rw [if_neg h, if_neg (by simpa using h), map_raw_get]

/-- A name that splitting a path at its dots gives has itself no dot. -/
theorem dot_notMem_segments {path name : String} (h : name ∈ segments path) :
    '.' ∉ name.toList := by
  obtain ⟨chars, hchars, rfl⟩ := List.mem_map.mp h
  rw [String.toList_ofList]
  generalize hn : path.toList = text at hchars
  clear hn h
  induction hlen : text.length using Nat.strong_induction_on generalizing text with
  | h n ih =>
    cases hcut : splitOnce '.' text with
    | none =>
      have hfree := splitOnce_eq_none_iff.mp hcut
      rw [List.splitOn_eq_singleton hfree] at hchars
      rwa [List.mem_singleton.mp hchars]
    | some parts =>
      obtain ⟨htext, hfree⟩ := splitOnce_eq_some_iff.mp hcut
      have hlt : parts.2.length < n := by
        rw [← hlen, htext, List.length_append, List.length_cons]
        omega
      rw [htext, List.splitOn_append_cons_self_of_not_mem hfree] at hchars
      obtain rfl | hrest := List.mem_cons.mp hchars
      · exact hfree
      · exact ih _ hlt parts.2 hrest rfl

/-- The segments of a name followed by a path. -/
theorem segments_append {name : String} (h : '.' ∉ name.toList) (path : String) :
    segments (name ++ "." ++ path) = name :: segments path := by
  have htext : (name ++ "." ++ path).toList = name.toList ++ '.' :: path.toList := by simp
  rw [segments, htext, List.splitOn_append_cons_self_of_not_mem h, List.map_cons,
    String.ofList_toList]
  rfl

/-- **Paths.** A path leads where its segments lead. A field whose name has a dot is behind no path:
setting it changes nothing that a path finds. A field whose name has none is found under its name
once it is set, and what is found behind its name and a dot is what the rest of the path finds in
the document that it holds, if it holds one. -/
theorem paths_found (doc : Document) (name path : String) (value : Value) :
    doc.getPath path = walk (segments path) doc ∧
      ('.' ∈ name.toList → (doc.insert name value).getPath path = doc.getPath path) ∧
      ('.' ∉ name.toList → (doc.insert name value).getPath name = some value ∧
        (doc.insert name value).getPath (name ++ "." ++ path) =
          value.asDocument.bind fun inner => inner.getPath path) := by
  refine ⟨getPath_eq_walk doc path, fun hdot => ?_, fun hfree => ⟨?_, ?_⟩⟩
  · rw [getPath_eq_walk, getPath_eq_walk]
    have hother : ∀ key ∈ segments path, (doc.insert name value).get key = doc.get key := by
      intro key hkey
      rw [get_insert, if_neg]
      rintro rfl
      exact dot_notMem_segments hkey hdot
    cases hsegments : segments path with
    | nil => rfl
    | cons first rest =>
      have hfirst := hother first (hsegments ▸ List.mem_cons_self)
      cases rest with
      | nil => exact hfirst
      | cons next rest => rw [walk_cons _ _ (by simp), walk_cons _ _ (by simp), hfirst]
  · have hsegment : segments name = [name] := by
      rw [segments, List.splitOn_eq_singleton hfree, List.map_singleton, String.ofList_toList]
    rw [getPath_eq_walk, hsegment, walk, get_insert, if_pos rfl]
  · have hsegments : segments path ≠ [] := by
      rw [segments, ne_eq, List.map_eq_nil_iff]
      exact List.splitOn_ne_nil _ _
    rw [getPath_eq_walk, segments_append hfree, walk_cons _ _ hsegments, get_insert, if_pos rfl,
      Option.bind_some]
    congr 1
    funext inner
    exact (getPath_eq_walk inner path).symm

end Document

end Skaidb

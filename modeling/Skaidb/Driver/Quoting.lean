import Skaidb.Driver.Feed

/-!
# Quoted names and cursors

The name of a database and the cursor of a feed are put into statements between quotes, with
the quotes inside them doubled. A reader of quoted tokens gets the name or the cursor back and
stops where the token ends, whatever quotes are in it and whatever follows but another quote.
-/

namespace Skaidb

open Client Codec

namespace Client

/-- A quoted token: a text between quotes, with its own quotes doubled. -/
def quotedToken (q : Char) (text : String) : String :=
  String.ofList ([q] ++ doubled q text.toList ++ [q])

/-- The token is read back, and the reader stops where it ends. -/
theorem readToken_quotedToken {q : Char} (text : String) {rest : List Char}
    (h : rest.head? ≠ some q) :
    readToken q ((quotedToken q text).toList ++ rest) = some (text.toList, rest) := by
  rw [quotedToken, String.toList_ofList]
  exact readToken_doubled h text.toList

/-- The statement that enters a database ends with its quoted name. -/
theorem useSql_eq (db : String) : useSql db = "USE " ++ quotedToken '"' db := by
  apply String.toList_injective
  simp only [useSql, quoteIdent, quotedToken, doubled, String.toList_append, String.toList_ofList,
    List.append_assoc]
  rfl

/-- The statement of a later poll has the quoted cursor between its condition and its order. -/
theorem pollSql_eq (stream : String) {after : String} (hafter : after ≠ "") (limit : ℕ) :
    pollSql stream after limit =
      "SELECT id, op, k, ts, doc FROM " ++ ("_stream_" ++ stream) ++ " WHERE id > " ++
        quotedToken '\'' after ++ (" ORDER BY id LIMIT " ++ toString limit) := by
  have hwhere : " WHERE id > '".toList = " WHERE id > ".toList ++ ['\''] := rfl
  apply String.toList_injective
  rw [toList_pollSql_after stream hafter]
  simp only [quotedToken, String.toList_append, String.toList_ofList, List.append_assoc, hwhere,
    List.cons_append, List.nil_append]

end Client

/-- **Names and cursors stay in their quotes.** For every database name, cursor that is not
empty and text that does not go on with the quote in use, the token in the statement that
enters the database is read back as the name, and the one in the statement of the poll as the
cursor, and the reader stops exactly before the text. What follows the cursor in the statement
is such a text. -/
theorem quoted_tokens_read_back (s : String) :
    (∃ token, useSql s = "USE " ++ token ∧ ∀ t : List Char, t.head? ≠ some '"' →
      readToken '"' (token.toList ++ t) = some (s.toList, t)) ∧
    (s ≠ "" → ∀ stream limit, ∃ token, pollSql stream s limit =
        "SELECT id, op, k, ts, doc FROM " ++ ("_stream_" ++ stream) ++ " WHERE id > " ++ token ++
          (" ORDER BY id LIMIT " ++ toString limit) ∧
      (∀ t : List Char, t.head? ≠ some '\'' →
        readToken '\'' (token.toList ++ t) = some (s.toList, t)) ∧
      (" ORDER BY id LIMIT " ++ toString limit).toList.head? ≠ some '\'') := by
  refine ⟨⟨quotedToken '"' s, useSql_eq s, fun t ht => readToken_quotedToken s ht⟩,
    fun hs stream limit => ⟨quotedToken '\'' s, pollSql_eq stream hs limit,
      fun t ht => readToken_quotedToken s ht, ?_⟩⟩
  simp [String.toList_append]

end Skaidb

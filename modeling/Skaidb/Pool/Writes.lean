import Skaidb.Types.Value

/-!
# Which statements write

A statement counts as a write unless its first keyword, after whitespace, comments and
opening parentheses, is a read keyword.
-/

namespace Skaidb

/-- `READ_KEYWORDS`: the first words of statements that never write. -/
def readKeywords : List String :=
  ["select", "show", "explain", "describe", "desc", "values", "with", "use"]

/-- A byte of whitespace, as `is_ascii_whitespace` has it. -/
def isAsciiWhitespace (b : UInt8) : Bool := [0x20, 0x09, 0x0A, 0x0C, 0x0D].contains b

/-- A byte that a keyword is made of: a letter or an underscore. -/
def isWordByte (b : UInt8) : Bool :=
  (0x41 ≤ b && b ≤ 0x5A) || (0x61 ≤ b && b ≤ 0x7A) || b == 0x5F

/-- What follows the end of a line comment. -/
def afterLine (bytes : List UInt8) : List UInt8 := (bytes.dropWhile (· != 0x0A)).drop 1

/-- What follows the end of a block comment. -/
def afterBlock : List UInt8 → List UInt8
  | [] => []
  | b :: rest => if [0x2A, 0x2F].isPrefixOf (b :: rest) then rest.drop 1 else afterBlock rest

/-- What follows the leading whitespace, comments and parentheses, in at most `fuel` steps. -/
def skipNoise : ℕ → List UInt8 → List UInt8
  | 0, bytes => bytes
  | _ + 1, [] => []
  | fuel + 1, b :: rest =>
    if isAsciiWhitespace b || b == 0x28 then skipNoise fuel rest
    else if [0x2D, 0x2D].isPrefixOf (b :: rest) then skipNoise fuel (afterLine (b :: rest))
    else if [0x2F, 0x2A].isPrefixOf (b :: rest) then skipNoise fuel (afterBlock (rest.drop 1))
    else b :: rest

/-- A byte with an upper-case letter made lower. -/
def toAsciiLower (b : UInt8) : UInt8 := if 0x41 ≤ b && b ≤ 0x5A then b + 0x20 else b

/-- `is_write`: the statement counts as a write, unless it begins with one of the reading
keywords. -/
def isWrite (sql : String) : Bool :=
  let bytes := utf8 sql
  let word := (skipNoise bytes.length bytes).takeWhile isWordByte
  !readKeywords.any fun k => word.map toAsciiLower == (utf8 k).map toAsciiLower

end Skaidb

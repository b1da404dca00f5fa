import LocatedHtml.Bytes.Utf8
import LocatedHtml.Json.Parser
import LocatedHtml.Json.Written

/-!
Files of records with one JSON value a line.
-/

namespace LocatedHtml

namespace JsonLines

/-- The text of some records, each on a line of its own. -/
def written : List Json → Except JsonError Text
  | [] => .ok []
  | record :: rest => do return (← record.written) ++ '\n' :: (← written rest)

/-- The bytes of a file of records. -/
def encode (records : List Json) : Except JsonError Bytes := (written records).map encodeUtf8

/-- The lines of a file; a newline at the end is followed by an empty line. -/
def byteLines : Bytes → List Bytes
  | [] => [[]]
  | b :: rest =>
    if b = 0x0A then [] :: byteLines rest
    else match byteLines rest with
      | [] => [[b]]
      | line :: more => (b :: line) :: more

/-- A byte that may stand around the value of a line. -/
def isPadding (b : UInt8) : Bool := (0x09 ≤ b && b ≤ 0x0D) || b = 0x20

/-- A line without the padding at its two ends. -/
def stripLine (line : Bytes) : Bytes :=
  ((line.dropWhile isPadding).reverse.dropWhile isPadding).reverse

/-- The value of a line. -/
def decodeLine (line : Bytes) : Option Json := do Json.read? (← decodeUtf8? line)

/-- The records of a file, which may have empty lines; none if a line is not a value. -/
def decode (bytes : Bytes) : Option (List Json) :=
  (((byteLines bytes).map stripLine).filter fun line => !line.isEmpty).mapM decodeLine

end JsonLines

end LocatedHtml

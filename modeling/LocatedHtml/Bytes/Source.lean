import LocatedHtml.Bytes.Utf8

/-!
The text of a source file whose encoding is not told.
-/

namespace LocatedHtml

/-- The text of a file: UTF-8 if it is that, else code page 1252 if all bytes are defined there, else
what is left of it as UTF-8. -/
def decodeSource (bytes : Bytes) : Text :=
  match decodeUtf8? bytes with
  | some t => t
  | none => (decodeWindows? bytes).getD (decodeUtf8Lossy bytes)

end LocatedHtml

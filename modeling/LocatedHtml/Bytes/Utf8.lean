import LocatedHtml.Bytes.Windows1252

/-!
UTF-8. Bytes are cut into pieces, each a character or the longest stretch that starts a character
without finishing it, so that strict and lenient decoding differ only in what they make of the latter.
-/

namespace LocatedHtml

/-- What a first byte says: how many bytes follow it, the values that the next of them may have, and
the bits that it gives to the character. -/
structure Utf8Lead where
  tail : Nat
  low : Nat
  high : Nat
  bits : Nat
  deriving DecidableEq, Repr

/-- The meaning of a byte as the first one of a character; overlong forms, surrogates and numbers that
are too large are kept out by the bounds of the second byte. -/
def Utf8Lead.of? (b : Nat) : Option Utf8Lead :=
  if b < 0x80 then some ⟨0, 0, 0, b⟩
  else if b < 0xC2 then none
  else if b < 0xE0 then some ⟨1, 0x80, 0xBF, b - 0xC0⟩
  else if b = 0xE0 then some ⟨2, 0xA0, 0xBF, 0⟩
  else if b = 0xED then some ⟨2, 0x80, 0x9F, 0xD⟩
  else if b < 0xF0 then some ⟨2, 0x80, 0xBF, b - 0xE0⟩
  else if b = 0xF0 then some ⟨3, 0x90, 0xBF, 0⟩
  else if b < 0xF4 then some ⟨3, 0x80, 0xBF, b - 0xF0⟩
  else if b = 0xF4 then some ⟨3, 0x80, 0x8F, 4⟩
  else none

/-- A character, or none for bytes that are not UTF-8, and how many bytes it takes. -/
structure Utf8Piece where
  char : Option Char
  length : Nat
  deriving DecidableEq, Repr

/-- The piece that goes on with the given bytes when `tail` bytes are owed, of which the next one is
bounded; `used` bytes with the number `code` came before. -/
def Utf8Piece.continue (tail low high code used : Nat) (bytes : Bytes) : Utf8Piece :=
  match tail with
  | 0 => ⟨some (Char.ofNat code), used⟩
  | tail + 1 =>
    match bytes with
    | [] => ⟨none, used⟩
    | b :: rest =>
      if low ≤ b.toNat && b.toNat ≤ high then
        Utf8Piece.continue tail 0x80 0xBF (code * 64 + (b.toNat - 0x80)) (used + 1) rest
      else ⟨none, used⟩

/-- The piece at the front of some bytes. -/
def Utf8Piece.first (b : UInt8) (rest : Bytes) : Utf8Piece :=
  match Utf8Lead.of? b.toNat with
  | none => ⟨none, 1⟩
  | some lead => Utf8Piece.continue lead.tail lead.low lead.high lead.bits 1 rest

/-- The pieces of some bytes, in order. -/
def utf8Pieces : Bytes → List Utf8Piece
  | [] => []
  | b :: rest =>
    let piece := Utf8Piece.first b rest
    piece :: utf8Pieces (rest.drop (piece.length - 1))
termination_by bytes => bytes.length
decreasing_by simp only [List.length_cons, List.length_drop]; omega

/-- The text whose encoding the bytes are. -/
def decodeUtf8? (bytes : Bytes) : Option Text := (utf8Pieces bytes).mapM (·.char)

/-- The text with a replacement character for every piece that is not UTF-8. -/
def decodeUtf8Lossy (bytes : Bytes) : Text := (utf8Pieces bytes).map fun p => p.char.getD '\ufffd'

/-- The encoding of a text. -/
def encodeUtf8 (t : Text) : Bytes := t.flatMap String.utf8EncodeChar

end LocatedHtml

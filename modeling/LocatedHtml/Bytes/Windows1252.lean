import LocatedHtml.Text.Basic

/-!
Code page 1252: one character a byte. All bytes but those from 0x80 to 0x9F stand for the character of
their own number.
-/

namespace LocatedHtml

/-- A file or a line of it, byte by byte. -/
abbrev Bytes := List UInt8

/-- The characters of the bytes from 0x80 to 0x9F. The five bytes that the code page leaves undefined
are given with their own number. -/
def windowsCharacters : List Nat := [
  0x20AC, 0x0081, 0x201A, 0x0192, 0x201E, 0x2026, 0x2020, 0x2021, 0x02C6, 0x2030, 0x0160, 0x2039,
  0x0152, 0x008D, 0x017D, 0x008F, 0x0090, 0x2018, 0x2019, 0x201C, 0x201D, 0x2022, 0x2013, 0x2014,
  0x02DC, 0x2122, 0x0161, 0x203A, 0x0153, 0x009D, 0x017E, 0x0178]

/-- The bytes that stand for no character. -/
def undefinedWindowsBytes : List Nat := [0x81, 0x8D, 0x8F, 0x90, 0x9D]

/-- The character of a number in the code page, undefined numbers standing for themselves. -/
def windowsCharacter (n : Nat) : Char :=
  if 0x80 ≤ n && n ≤ 0x9F then Char.ofNat (windowsCharacters.getD (n - 0x80) n) else Char.ofNat n

/-- The text of some bytes, unless one of them is undefined. -/
def decodeWindows? (bytes : Bytes) : Option Text :=
  if bytes.any fun b => undefinedWindowsBytes.contains b.toNat then none
  else some (bytes.map fun b => windowsCharacter b.toNat)

end LocatedHtml

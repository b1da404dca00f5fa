import LocatedHtml.Text.Basic

/-!
JSON values. A number is kept exactly as it was written: a whole one that fits 64 bits as it is, any
other one as digits with a power of ten.
-/

namespace LocatedHtml

/-- A JSON value. The entries of an object have different names; their order means nothing. -/
inductive Json where
  | null
  | bool (value : Bool)
  | number (value : Int)
  /-- The number `digits * 10 ^ exponent`. -/
  | decimal (digits exponent : Int)
  | string (value : Text)
  | array (items : List Json)
  | object (entries : List (Text × Json))
  deriving Repr

namespace Json

/-- True if a name is another one or before it, code point by code point. -/
def notBehind : Text → Text → Bool
  | [], _ => true
  | _ :: _, [] => false
  | c :: name, d :: other =>
    decide (c.toNat < d.toNat) || (c.toNat == d.toNat && notBehind name other)

/-- An entry among others of different names, put in front of the first name that is not smaller. -/
def insertEntry (entry : Text × Json) : List (Text × Json) → List (Text × Json)
  | [] => [entry]
  | other :: rest =>
    if notBehind entry.1 other.1 then entry :: other :: rest else other :: insertEntry entry rest

/-- Entries in the order of their names, code point by code point. -/
def sortEntries (entries : List (Text × Json)) : List (Text × Json) := entries.foldr insertEntry []

mutual

/-- The value with the entries of every object in order. -/
def sorted : Json → Json
  | .array items => .array (sortedItems items)
  | .object entries => .object (sortEntries (sortedEntries entries))
  | value => value

/-- The values with the entries of every object in order. -/
def sortedItems : List Json → List Json
  | [] => []
  | item :: rest => sorted item :: sortedItems rest

/-- The entries with the entries of every object in their values in order. -/
def sortedEntries : List (Text × Json) → List (Text × Json)
  | [] => []
  | (name, value) :: rest => (name, sorted value) :: sortedEntries rest

end

/-- The whole number fits 64 bits, with a sign or without one. -/
def fitsWord (n : Int) : Bool := -(Int.pow 2 63) ≤ n && n < Int.pow 2 64

/-- A name with its value. -/
def entry (name : String) (value : Json) : Text × Json := (name.toList, value)

/-- A string given as such. -/
def ofString (s : String) : Json := .string s.toList

/-- A number that counts something. -/
def ofNat (n : Nat) : Json := .number n

end Json

end LocatedHtml

/-
The normal form of a typed pattern: small letters, and only the
characters of the notation.
-/
import Siteswap.Pattern.Dialect
import Siteswap.Alphabet
import Siteswap.Text.Blank

namespace Siteswap

/-- What was typed: a text, or nothing at all. -/
abbrev Typed := Option String

namespace Typed

/-- What was typed, as messages show it. -/
def shown : Typed → String
  | none => "None"
  | some s => s

/-- Whether nothing but white space was typed. -/
def isBlank : Typed → Bool
  | none => true
  | some s => s.toList.all Text.isBlank

end Typed

namespace Pattern

/-- Whether `c` belongs to the notation: throws, brackets, the comma. -/
def isNotation (c : Char) : Bool :=
  Alphabet.isLetter c || c = '(' || c = ')' || c = '[' || c = ']' || c = ','

/-- The normal form of a text. -/
def normalize (s : List Char) : List Char :=
  (Text.lower s).filter isNotation

/-- The dialect of a text, by its characters alone: round brackets make
it sync, else square ones multiplex, and throws alone async. -/
def classify (s : List Char) : Dialect :=
  if s.any fun c => c = '(' || c = ')' then .sync
  else if s.any fun c => c = '[' || c = ']' then .multiplex
  else if !s.isEmpty && s.all Alphabet.isLetter then .async
  else .invalid

end Pattern

end Siteswap

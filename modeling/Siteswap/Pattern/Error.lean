/-
Why a text is no pattern, and how that is put into words.
-/
import Siteswap.Text.Quoted

namespace Siteswap

/-- A fault in the notation. Positions count the characters of the
normal form from zero. -/
inductive SyntaxError where
  /-- nothing was typed, or only white space -/
  | empty
  /-- no character of what was typed belongs to the notation -/
  | noNotation (typed : List Char)
  /-- a bracket opens inside another -/
  | nested (bracket : Char) (position : Nat)
  /-- a bracket closes that did not open -/
  | unmatched (bracket : Char) (position : Nat)
  /-- a bracket is still open at the end -/
  | unclosed (bracket : Char)
  /-- a sync pattern that is no sequence of pairs -/
  | notPairs (text : List Char)
  /-- a bracket group that is empty or holds something else than throws -/
  | badGroup (group : List Char) (position : Nat)
  /-- a character between groups that is no throw -/
  | unexpected (c : Char) (position : Nat) (text : List Char)
  /-- a text in no dialect -/
  | noDialect (text : List Char)
  deriving DecidableEq

namespace SyntaxError

def message : SyntaxError → String
  | empty => "Pattern cannot be empty"
  | noNotation typed => "No siteswap characters found in " ++ String.ofList (Text.quoted typed)
  | nested b position => "Nested '" ++ b.toString ++ "' at position " ++ toString position
  | unmatched b position => "Unmatched '" ++ b.toString ++ "' at position " ++ toString position
  | unclosed b => "Unclosed '" ++ b.toString ++ "'"
  | notPairs text => "Invalid synchronous pattern '" ++ String.ofList text
      ++ "'. Use format: (4,4) or (4x,4x)"
  | badGroup group position => "Invalid multiplex group '[" ++ String.ofList group
      ++ "]' at position " ++ toString position
  | unexpected c position text => "Unexpected '" ++ c.toString ++ "' at position "
      ++ toString position ++ " in multiplex pattern '" ++ String.ofList text ++ "'"
  | noDialect text => "Invalid pattern format: '" ++ String.ofList text ++ "'"

end SyntaxError

end Siteswap

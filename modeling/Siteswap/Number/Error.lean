/-
Arithmetic that has no result.
-/
namespace Siteswap.Number

/-- Why a calculation has no result. -/
inductive Error where
  /-- a remainder by zero -/
  | zeroModulus
  /-- a quotient beyond all floats -/
  | quotientTooLarge
  /-- a whole number beyond all floats -/
  | integerTooLarge
  deriving DecidableEq

def Error.message : Error → String
  | zeroModulus => "integer modulo by zero"
  | quotientTooLarge => "integer division result too large for a float"
  | integerTooLarge => "int too large to convert to float"

end Siteswap.Number

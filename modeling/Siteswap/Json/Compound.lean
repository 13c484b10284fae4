/-
Keys with parts: a list of keys is a key as well, and two such lists are
one key when they are so part by part.
-/
import Siteswap.Json.Key

namespace Siteswap.Json

/-- A key that may have parts, each of them a key. -/
inductive Compound where
  | key (k : Key)
  | parts (ks : List Compound)

namespace Compound

mutual

/-- The key that a value is; an array has its items as parts, an object
is no key. -/
def ofValue? : Value → Option Compound
  | .array vs => (ofItems? vs).map parts
  | v => (Key.ofValue? v).map key

def ofItems? : List Value → Option (List Compound)
  | [] => some []
  | v :: vs => do
    let k ← ofValue? v
    let ks ← ofItems? vs
    return k :: ks

end

mutual

/-- Whether two keys are one, part by part. -/
def same : Compound → Compound → Bool
  | key a, key b => a.same b
  | parts as, parts bs => sameParts as bs
  | _, _ => false

def sameParts : List Compound → List Compound → Bool
  | [], [] => true
  | a :: as, b :: bs => same a b && sameParts as bs
  | _, _ => false

end

instance : BEq Compound := ⟨same⟩

end Compound

end Siteswap.Json

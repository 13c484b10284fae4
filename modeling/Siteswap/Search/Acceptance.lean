/-
Acceptance: which complete candidates count as found, and how they are
spelled.

A candidate has to pass all three checks, and so has the canonical
spelling under which it is reported.
-/
import Siteswap.Canonical
import Siteswap.Validity.Verdict

namespace Siteswap.Search

/-- The canonical spelling of a candidate, if it is a pattern. Heights
out of range are an error once the candidate passes the checks. -/
def accept (hs : List Int) : Except Sequence.Error (Option Sequence) :=
  if !Checks.passesQuickly hs || !(Checks.state hs).isEmpty then .ok none
  else (Sequence.canonicalOf hs).map fun s =>
    if (Verdict.ofSequence .async s).isValid then some s else none

/-- The canonical spelling of a candidate, if it is a pattern in
range. -/
def accepted? (hs : List Int) : Option Sequence :=
  match accept hs with
  | .ok found => found
  | .error _ => none

end Siteswap.Search

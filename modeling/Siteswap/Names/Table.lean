/-
The named patterns, by the canonical form of their notation.
-/
import Siteswap.Names.Family

namespace Siteswap.Names

-- ============================================================= sources

/-- A source of names. -/
def library : String := "Library of Juggling"

def edge : String := "The Juggling Edge"

def lab : String := "JugglingLab Documentation"

-- =============================================================== names

/-- Names with their sources, by canonical form. -/
def table : List (String × String × List String) := [
  ("3", "Cascade", [library, edge, lab]),
  ("441", "Half-Box", [library]),
  ("531", "Box", [library]),
  ("423", "Burke's Barrage", [library]),
  ("51", "Shower", [library]),
  ("4", "Fountain", [library, edge, lab]),
  ("5", "Cascade", [library, edge, lab]),
  ("(4,4)", "Synchronous Fountain", [edge, lab]),
  ("(4,2x)(2x,4)", "Box", [edge, library]),
  ("(4,4)(4,0)", "Columns", [edge, library]),
  ("[33]", "Multiplex Cascade", [edge, lab])]

-- ============================================================ families

/-- The record of 531. -/
def box : Family where
  primaryName := "Box"
  alternativeNames := ["See-Saw"]
  variations := [
    ⟨"Box (Basic)", "(4,2x)(2x,4)", [library],
      "Simultaneous vertical and horizontal throws, behaves like a see-saw", some 6⟩,
    ⟨"Broken Box", "(4,2x)*", [library],
      "Both vertical throws made on the same side, forcing arm crossing", some 6⟩,
    ⟨"Extended Box", "(4x,2x)(4,2x)*", [library],
      "Juggled on each side of the body by alternating the second throw", some 6⟩]
  related := [
    ⟨"531 (Tower Pattern)", "531", .familyMember, [library],
      "Most basic tower pattern with descending height throws"⟩,
    ⟨"531 Mills Mess", "531", .variation, [library],
      "Mills Mess done with the 531 siteswap"⟩,
    ⟨"Half-Box (441)", "441", .prerequisite, [library],
      "Slower, easier version of the Box"⟩,
    ⟨"Shower", "51", .prerequisite, [library],
      "Foundation pattern for learning Box"⟩]
  sources := [library]
  notes := "Also known as the See-Saw due to its alternating vertical throws."
  inventor := none
  difficulty := some 6
  prerequisites := ["441 (Half-Box)", "Shower"]

/-- The record of 441. -/
def halfBox : Family where
  primaryName := "Half-Box"
  alternativeNames := ["Parallel Schizophrenic"]
  variations := [
    ⟨"Half-Box (Basic)", "441", [library],
      "First trick with a horizontal pass, a slower and easier Box", some 4⟩,
    ⟨"Reverse 441", "441", [library],
      "Vertical throws made toward the centre of the body", some 4⟩]
  related := [
    ⟨"Box", "531", .progression, [library],
      "Faster relative of the Half-Box"⟩,
    ⟨"Cascade", "3", .prerequisite, [library],
      "Basic three ball pattern"⟩]
  sources := [library]
  notes := ""
  inventor := none
  difficulty := some 4
  prerequisites := ["Cascade"]

/-- The record of 423. -/
def barrage : Family where
  primaryName := "Burke's Barrage"
  alternativeNames := []
  variations := [
    ⟨"423 (Basic)", "423", [library],
      "Alternating Two-in-ones from each hand", some 2⟩,
    ⟨"Takeouts", "423", [library],
      "Large arm orbits while a ball is thrown back and forth in the centre", some 4⟩,
    ⟨"Relf's Revenge", "423", [library],
      "Fast orbits added to the basic 423", some 5⟩]
  related := [
    ⟨"Weave", "432", .progression, [library],
      "A ball is carried through the pattern by the idle hand"⟩,
    ⟨"Two in One", "40", .prerequisite, [library],
      "Foundation pattern for learning 423 variations"⟩,
    ⟨"Mills Mess", "3", .mechanicalRelative, [library],
      "Related through arm crossing movements"⟩]
  sources := [library, "Wikipedia"]
  notes := "Named after its inventor, Ken Burke."
  inventor := some "Ken Burke"
  difficulty := some 4
  prerequisites := ["Takeouts"]

/-- The record of 4. -/
def fountain : Family where
  primaryName := "Fountain"
  alternativeNames := ["Asynchronous Fountain"]
  variations := [
    ⟨"Fountain (Basic)", "4", [library],
      "Pair of Two-in-ones juggled asynchronously", some 7⟩,
    ⟨"Synchronous Fountain", "(4,4)", [library],
      "Fountain with simultaneous throws", some 6⟩]
  related := [
    ⟨"Two in One", "40", .prerequisite, [library],
      "Foundation pattern for learning Fountain"⟩,
    ⟨"Half-Box (441)", "441", .prerequisite, [library],
      "Helpful preparation pattern"⟩,
    ⟨"Four Ball Box", "(4,4)(4,0)", .familyMember, [library],
      "Four ball version of the Box"⟩]
  sources := [library]
  notes := "Usually the first four ball pattern jugglers learn."
  inventor := none
  difficulty := some 7
  prerequisites := ["Two in One", "441 (Half-Box)"]

/-- Records, by canonical form. -/
def families : List (String × Family) :=
  [("531", box), ("441", halfBox), ("423", barrage), ("4", fountain)]

end Siteswap.Names

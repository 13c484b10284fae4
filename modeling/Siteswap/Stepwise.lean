/-
The entry points, step by step.

Reading, validating, respelling and labelling a pattern takes many steps,
and some have no result for some arguments: a character without a height, a
height without a letter, a remainder by zero, a number beyond all floats, a
beat that does not exist, the greatest of nothing. Here every such step
stands as it is taken, and may slip. A slip is no answer: it is what a
caller is never told to expect. What may be wrong with a pattern is part of
the answers.
-/
import Siteswap.Advisor
import Siteswap.Catalog.Listing
import Siteswap.Practice.Tracker

namespace Siteswap

/-- A step that has no result. -/
inductive Slip where
  /-- a text without heights, or heights without a text -/
  | alphabet (e : Alphabet.Error)
  /-- heights that are no sequence -/
  | sequence (e : Sequence.Error)
  | number (e : Number.Error)
  /-- a bracket that is searched for and not there -/
  | noClosing
  /-- a beat that is looked up and not there -/
  | noBeat
  /-- the greatest or the least of nothing -/
  | noExtreme
  /-- a pattern that is read again and cannot be read -/
  | unreadable (e : SyntaxError)
  deriving DecidableEq

namespace Stepwise

variable {α : Type}

-- =============================================================== reading

/-- The throws of a text whose brackets match. A group is cut out up to its
closing bracket. -/
def letters (s : List Char) : Except Slip (Except SyntaxError (List Char)) :=
  match Pattern.letters (Pattern.classify s) s with
  | .error (.unclosed _) => .error .noClosing
  | result => .ok result

/-- The sequence of heights that are known to be throws. -/
def sequence (hs : List Int) : Except Slip Sequence :=
  (Sequence.ofHeights hs).mapError .sequence

/-- The sequence of characters that are known to be throws. -/
def throwsOf (ls : List Char) : Except Slip Sequence := do
  sequence (← (Alphabet.standard.encode ls).mapError .alphabet)

def ofNormal (s : List Char) : Except Slip (Except SyntaxError Pattern) :=
  match Pattern.matchBrackets 0 none s with
  | .error e => .ok (.error e)
  | .ok () => do
    match ← letters s with
    | .error e => return .error e
    | .ok ls =>
      return .ok { dialect := Pattern.classify s, throws := ← throwsOf ls, text := s }

/-- The pattern that was typed, or what is wrong with its notation. -/
def read (typed : Typed) : Except Slip (Except SyntaxError Pattern) :=
  if typed.isBlank then .ok (.error .empty)
  else
    let s := (typed.getD "").toList
    if Pattern.normalize s = [] then .ok (.error (.noNotation s))
    else ofNormal (Pattern.normalize s)

-- ============================================================== verdicts

/-- The collisions from `beat` on. The first throw in a slot is known by its
beat and looked up among all throws. -/
def collisionsFrom (whole : List Int) (beat : Nat) (taken : Entries Slot Nat) :
    List Int → Except Slip (List Diagnostic)
  | [] => .ok []
  | h :: hs =>
    if h = 0 then collisionsFrom whole (beat + 1) taken hs
    else do
      let slot ← (Slot.landing? whole.length beat h).mapError .number
      match taken.get? slot with
      | none => collisionsFrom whole (beat + 1) (taken.put slot beat) hs
      | some first =>
        match whole[first]? with
        | none => throw .noBeat
        | some height =>
          return .collision slot first height beat h
            :: (← collisionsFrom whole (beat + 1) taken hs)

/-- The figures of a sequence without findings. The number of objects is
also given as a float. -/
def figures (s : Sequence) : Except Slip Figures := do
  if s.period = 0 then throw (.number .zeroModulus)
  let objects := s.total.fdiv s.period
  let _ ← (Spread.floats? [objects]).mapError Slip.number
  let variance ← (Spread.variance? s.heights).mapError .number
  return { objects, period := s.period, variance := Number.rational variance }

def verdictOf (p : Pattern) : Except Slip Verdict := do
  let hs := p.throws.heights
  if hs = [] then return { dialect := p.dialect, outcome := .error [.noThrows] }
  let average ← (Checks.average? hs).mapError .number
  let collisions ← collisionsFrom hs 0 [] hs
  let findings := average ++ collisions ++ Checks.state hs
  if findings ≠ [] then return { dialect := p.dialect, outcome := .error findings }
  return { dialect := p.dialect, outcome := .ok (← figures p.throws) }

def verdict (typed : Typed) : Except Slip Verdict := do
  match ← read typed with
  | .error e => return { dialect := .invalid, outcome := .error [.unreadable e] }
  | .ok p => verdictOf p

-- ======================================================= canonical forms

/-- The text of heights that are known to be throws. -/
def spell (hs : List Int) : Except Slip String := do
  let s ← sequence hs
  return String.ofList (← (Alphabet.standard.decode s.heights).mapError .alphabet)

/-- The greatest of the rotations that begin with the greatest height. -/
def leading (hs : List Int) : Except Slip (List Int) :=
  let words := Rotation.rotations hs
  if words = [] then .ok []
  else match hs.max? with
    | none => .error .noExtreme
    | some peak =>
      if [] ∈ words then .error .noBeat
      else match words.filter fun w => w.head? = some peak with
        | [] => .error .noExtreme
        | peaked => .ok (Rotation.greatest peaked)

def canonicalOf (p : Pattern) : Except Slip Canonical :=
  if p.dialect ≠ .async ∨ p.text.length = 1 then
    .ok {
      form := p.normalText
      isAlready := true
      equivalent := [p.normalText]
      normalization := .alreadyCanonical }
  else do
    let root := Rotation.root p.throws.heights
    if root.length = 1 then
      let form ← spell (root.take 1)
      return {
        form
        isAlready := p.normalText = form
        equivalent := [form]
        normalization := .constant }
    else
      let form ← spell (← leading root)
      let forms ← (Rotation.rotations root).mapM spell
      return {
        form
        isAlready := p.normalText = form
        equivalent := forms.mergeSort fun a b => a ≤ b
        normalization := .cyclic }

/-- The canonical form of a pattern that has been read before. -/
def canonicalAgain (typed : Typed) : Except Slip Canonical := do
  match ← read typed with
  | .error e => throw (.unreadable e)
  | .ok p => canonicalOf p

-- ========================================================== entry points

def grade (p : Pattern) : Except Slip Rat := do
  let score ← (Difficulty.score? p.dialect p.throws.heights).mapError .number
  return Difficulty.clamp (Number.rational score)

def appraisal (typed : Typed) : Except Slip Appraisal := do
  match ← read typed with
  | .error e => return { dialect := .invalid, outcome := .error [.unreadable e] }
  | .ok p =>
    let v ← verdictOf p
    match v.outcome with
    | .error findings => return { dialect := v.dialect, outcome := .error findings }
    | .ok figures =>
      let canonical ← canonicalAgain typed
      return { dialect := v.dialect, outcome := .ok { figures, difficulty := ← grade p, canonical } }

/-- The greatest or the least of some heights, where there are any. -/
def extreme (h? : Option Int) : Except Slip Int :=
  match h? with
  | some h => .ok h
  | none => .error .noExtreme

def analysis (typed : Typed) : Except Slip (Option Analysis) := do
  match ← read typed with
  | .error _ => return none
  | .ok p =>
    let v ← verdictOf p
    match v.outcome with
    | .error _ => return none
    | .ok f =>
      let difficulty ← grade p
      let maxHeight ← extreme p.throws.heights.max?
      let minHeight ← extreme p.throws.heights.min?
      return some {
        objects := f.objects
        period := f.period
        difficulty
        variance := f.variance
        maxHeight
        minHeight
        dialect := p.dialect
        hasMultiplex := p.hasMultiplex
        hasSynchronous := p.hasSynchronous
        throws := p.throws.heights }

/-- The one-throw spelling that a label is compared with. -/
def solo (n : Int) : Except Slip (Option String) :=
  if 0 ≤ n ∧ n ≤ Alphabet.maxHeight then do
    return some (String.ofList (← (Alphabet.standard.decode [n]).mapError .alphabet))
  else .ok none

/-- The listing of a pattern. Of its labels, only the one-throw spelling
takes a step that may slip. -/
def listing (typed : Typed) : Except Slip (Option Catalog.Listing) := do
  match typed, ← analysis typed with
  | some shown, some a =>
    let _ ← solo a.objects
    return some (.ofAnalysis shown a)
  | _, _ => return none

/-- The form that a tracker records a pattern under, or the error that it
gives. -/
def canonicalForm (typed : Typed) : Except Slip (Except Practice.Error String) := do
  let v ← verdict typed
  match v.outcome with
  | .error findings => return .error (.invalidPattern typed findings)
  | .ok _ => return .ok (← canonicalAgain typed).form

end Stepwise

end Siteswap

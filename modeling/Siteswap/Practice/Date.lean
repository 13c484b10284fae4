/-
Days of the calendar, the leap years of which follow the Gregorian rule
for all years.
-/
import Siteswap.Json.Lenient

namespace Siteswap.Practice

/-- Whether February has 29 days. -/
def isLeap (year : Int) : Bool :=
  year % 4 = 0 && (year % 100 ≠ 0 || year % 400 = 0)

def daysIn (year month : Int) : Int :=
  if month = 2 then (if isLeap year then 29 else 28)
  else if month = 4 ∨ month = 6 ∨ month = 9 ∨ month = 11 then 30
  else 31

/-- A day of the years 1 to 9999. -/
structure Date where
  year : Int
  month : Int
  day : Int
  year_range : 1 ≤ year ∧ year ≤ 9999
  month_range : 1 ≤ month ∧ month ≤ 12
  day_range : 1 ≤ day ∧ day ≤ daysIn year month
  deriving DecidableEq

namespace Date

/-- Why there is no such day. -/
inductive Error where
  /-- a value that is no whole number -/
  | notWhole (k : Json.Kind)
  /-- a number that no machine word holds -/
  | beyondWords
  /-- a number above those of 32 bits -/
  | tooLarge
  /-- a number below those of 32 bits -/
  | tooSmall
  /-- a year out of range -/
  | badYear (year : Int)
  /-- a month out of range -/
  | badMonth
  /-- a day that the month does not have -/
  | badDay
  /-- fewer than three numbers -/
  | missing (given : Nat)
  /-- more than three numbers -/
  | extra (given : Nat)
  deriving DecidableEq

def Error.message : Error → String
  | notWhole k => "'" ++ k.name ++ "' object cannot be interpreted as an integer"
  | beyondWords => "Python int too large to convert to C long"
  | tooLarge => "signed integer is greater than maximum"
  | tooSmall => "signed integer is less than minimum"
  | badYear year => "year " ++ toString year ++ " is out of range"
  | badMonth => "month must be in 1..12"
  | badDay => "day is out of range for month"
  | missing 0 => "function missing required argument 'year' (pos 1)"
  | missing 1 => "function missing required argument 'month' (pos 2)"
  | missing _ => "function missing required argument 'day' (pos 3)"
  | extra given => "function takes at most 3 arguments (" ++ toString given ++ " given)"

/-- A number that fits into 32 bits, or by how much it does not. -/
def ofRange (n : Int) : Except Error Int :=
  if n < -0x8000000000000000 ∨ 0x7FFFFFFFFFFFFFFF < n then .error .beyondWords
  else if 0x7FFFFFFF < n then .error .tooLarge
  else if n < -0x80000000 then .error .tooSmall
  else .ok n

/-- The number of 32 bits that a value is. -/
def word : Json.Value → Except Error Int
  | .int n => ofRange n
  | .bool b => .ok (if b then 1 else 0)
  | v => .error (.notWhole v.kind)

/-- The day of a year, month and day that fit into words. -/
def ofWords (year month day : Int) : Except Error Date :=
  if hy : 1 ≤ year ∧ year ≤ 9999 then
    if hm : 1 ≤ month ∧ month ≤ 12 then
      if hd : 1 ≤ day ∧ day ≤ daysIn year month then .ok ⟨year, month, day, hy, hm, hd⟩
      else .error .badDay
    else .error .badMonth
  else .error (.badYear year)

/-- The day that a year, a month and a day give. Too many values are
refused before any is looked at, a missing one only behind the others. -/
def ofValues (vs : List Json.Value) : Except Error Date := do
  if 3 < vs.length then throw (.extra vs.length)
  match ← vs.mapM word with
  | [year, month, day] => ofWords year month day
  | ns => throw (.missing ns.length)

/-- Month, day and year, without zeros in front. -/
def render (d : Date) : String :=
  toString d.month ++ "-" ++ toString d.day ++ "-" ++ toString d.year

end Date

end Siteswap.Practice

/-
The dialects of siteswap notation: one throw a beat (`531`), both hands
at once (`(4,2x)(2x,4)`), several throws a beat (`[33]1`), and what is
none of these.
-/
namespace Siteswap

/-- A dialect of the notation. -/
inductive Dialect where
  | async
  | sync
  | multiplex
  | invalid
  deriving DecidableEq, Repr

namespace Dialect

def all : List Dialect := [async, sync, multiplex, invalid]

def name : Dialect → String
  | async => "async"
  | sync => "sync"
  | multiplex => "multiplex"
  | invalid => "invalid"

def ofName? (s : String) : Option Dialect :=
  all.find? fun d => d.name == s

end Dialect

end Siteswap
